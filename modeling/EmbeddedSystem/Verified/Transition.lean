/-!
# Runs of a partial step function

A program is modelled by a state type `S`, a type `A` of actions and an
executable `step : S → A → Option S`.  An action fixes everything the program
does not decide itself (which call moves, what the hardware answers), so a
run is nothing but its list of actions, and `none` means that the action is
not enabled.

Two ways of reasoning about runs are packaged here.  `run_induct` is the
invariant rule: what holds initially and survives a step holds at the end of
every run.  `Along` restricts a run to those actions that meet a condition on
the state they are taken in, and `run_induct_along` is the invariant rule for
such runs.  `Throughout` is the statement that every state a run passes
through has a property; `throughout_iff_along` turns it into a condition on
single steps.
-/

set_option autoImplicit false

namespace EmbeddedSystem.Verified.Transition

variable {S A : Type}

/-- Take the actions one after another; `none` as soon as one is refused. -/
def run (step : S → A → Option S) (s : S) (acts : List A) : Option S :=
  acts.foldlM step s

@[simp] theorem run_nil (step : S → A → Option S) (s : S) :
    run step s [] = some s := rfl

@[simp] theorem run_cons (step : S → A → Option S) (s : S) (a : A)
    (acts : List A) :
    run step s (a :: acts) = (step s a).bind fun t => run step t acts := rfl

/-- The first action of a successful run succeeds. -/
theorem run_cons_some {step : S → A → Option S} {s u : S} {a : A}
    {acts : List A} (h : run step s (a :: acts) = some u) :
    ∃ t, step s a = some t ∧ run step t acts = some u := by
  rw [run_cons, Option.bind_eq_some_iff] at h
  exact h

/-- A successful step is a run of length one. -/
theorem run_single {step : S → A → Option S} {s t : S} {a : A}
    (h : step s a = some t) : run step s [a] = some t := by
  rw [run_cons, h]
  rfl

/-- A run of two parts. -/
theorem run_append (step : S → A → Option S) (s : S) (xs ys : List A) :
    run step s (xs ++ ys) = (run step s xs).bind fun t => run step t ys := by
  induction xs generalizing s with
  | nil => rfl
  | cons a xs ih =>
      rw [List.cons_append, run_cons, run_cons, Option.bind_assoc]
      exact Option.bind_congr fun t _ => ih t

/-! ## Invariants -/

/-- What every step preserves, every run preserves. -/
theorem run_induct {step : S → A → Option S} {P : S → Prop}
    (hstep : ∀ s a t, P s → step s a = some t → P t) {s t : S}
    {acts : List A} (hs : P s) (hrun : run step s acts = some t) : P t := by
  induction acts generalizing s with
  | nil =>
      rw [run_nil, Option.some.injEq] at hrun
      exact hrun ▸ hs
  | cons a acts ih =>
      obtain ⟨m, hm, hrest⟩ := run_cons_some hrun
      exact ih (hstep s a m hs hm) hrest

/-! ## Runs under a condition on their steps -/

/-- Every action of the run meets `C` in the state it is taken in. -/
def Along (step : S → A → Option S) (C : S → A → Prop) : S → List A → Prop
  | _, [] => True
  | s, a :: acts => C s a ∧ ∀ t, step s a = some t → Along step C t acts

theorem along_cons (step : S → A → Option S) (C : S → A → Prop) (s : S)
    (a : A) (acts : List A) :
    Along step C s (a :: acts) ↔
      C s a ∧ ∀ t, step s a = some t → Along step C t acts := Iff.rfl

/-- One enabled action: the rest of the run starts in its target. -/
theorem along_cons_of_step {step : S → A → Option S} {C : S → A → Prop}
    {s t : S} {a : A} {acts : List A} (hst : step s a = some t) :
    Along step C s (a :: acts) ↔ C s a ∧ Along step C t acts := by
  rw [along_cons]
  constructor
  · exact fun h => ⟨h.1, h.2 t hst⟩
  · rintro ⟨hC, hrest⟩
    refine ⟨hC, fun t' ht' => ?_⟩
    rw [hst, Option.some.injEq] at ht'
    exact ht' ▸ hrest

/-- A condition that all actions of the run meet in every state. -/
theorem along_of_forall {step : S → A → Option S} {C : S → A → Prop}
    {s : S} {acts : List A} (h : ∀ a ∈ acts, ∀ s, C s a) :
    Along step C s acts := by
  induction acts generalizing s with
  | nil => trivial
  | cons a acts ih =>
      refine ⟨h a List.mem_cons_self s, fun t _ => ?_⟩
      exact ih fun b hb => h b (List.mem_cons_of_mem a hb)

/-- A decidable condition can be checked by taking the run. -/
instance decidableAlong {step : S → A → Option S} {C : S → A → Prop}
    [∀ s a, Decidable (C s a)] :
    ∀ (s : S) (acts : List A), Decidable (Along step C s acts)
  | _, [] => isTrue trivial
  | s, a :: acts =>
      match hst : step s a with
      | none =>
          decidable_of_iff (C s a)
            ⟨fun h => ⟨h, fun t ht => by simp [hst] at ht⟩, fun h => h.1⟩
      | some t =>
          have : Decidable (Along step C t acts) := decidableAlong t acts
          decidable_of_iff (C s a ∧ Along step C t acts)
            (along_cons_of_step hst).symm

/-- The invariant rule for runs whose steps all meet `C`. -/
theorem run_induct_along {step : S → A → Option S} {C : S → A → Prop}
    {P : S → Prop} (hstep : ∀ s a t, P s → C s a → step s a = some t → P t)
    {s t : S} {acts : List A} (hs : P s) (hC : Along step C s acts)
    (hrun : run step s acts = some t) : P t := by
  induction acts generalizing s with
  | nil =>
      rw [run_nil, Option.some.injEq] at hrun
      exact hrun ▸ hs
  | cons a acts ih =>
      obtain ⟨m, hm, hrest⟩ := run_cons_some hrun
      exact ih (hstep s a m hs hC.1 hm) (hC.2 m hm) hrest

/-- A condition that follows from another one with the help of an invariant
of the runs that meet it. -/
theorem Along.weaken {step : S → A → Option S} {C D : S → A → Prop}
    {I : S → Prop}
    (hinv : ∀ s a t, I s → C s a → step s a = some t → I t)
    (himp : ∀ s a t, I s → C s a → step s a = some t → D s a)
    {s u : S} {acts : List A} (hs : I s) (hrun : run step s acts = some u)
    (h : Along step C s acts) : Along step D s acts := by
  induction acts generalizing s with
  | nil => trivial
  | cons a acts ih =>
      obtain ⟨t, hst, hrest⟩ := run_cons_some hrun
      rw [along_cons_of_step hst] at h ⊢
      exact ⟨himp s a t hs h.1 hst, ih (hinv s a t hs h.1 hst) hrest h.2⟩

/-- Two conditions at once. -/
theorem Along.and {step : S → A → Option S} {C D : S → A → Prop} {s : S}
    {acts : List A} (hC : Along step C s acts) (hD : Along step D s acts) :
    Along step (fun s a => C s a ∧ D s a) s acts := by
  induction acts generalizing s with
  | nil => trivial
  | cons a acts ih =>
      exact ⟨⟨hC.1, hD.1⟩, fun t ht => ih (hC.2 t ht) (hD.2 t ht)⟩

/-- A prefix of a conditioned run is one. -/
theorem Along.of_append {step : S → A → Option S} {C : S → A → Prop}
    {s : S} {xs ys : List A} (h : Along step C s (xs ++ ys)) :
    Along step C s xs := by
  induction xs generalizing s with
  | nil => trivial
  | cons a xs ih => exact ⟨h.1, fun t ht => ih (h.2 t ht)⟩

/-- So is what is left of it. -/
theorem Along.rest {step : S → A → Option S} {C : S → A → Prop} {s t : S}
    {xs ys : List A} (h : Along step C s (xs ++ ys))
    (hrun : run step s xs = some t) : Along step C t ys := by
  induction xs generalizing s with
  | nil =>
      rw [run_nil, Option.some.injEq] at hrun
      exact hrun ▸ h
  | cons a xs ih =>
      obtain ⟨m, hm, hrest⟩ := run_cons_some hrun
      rw [List.cons_append, along_cons_of_step hm] at h
      exact ih h.2 hrest

/-- A run that breaks the condition has a first step that does. -/
theorem first_break {step : S → A → Option S} {C : S → A → Prop} {s u : S}
    {acts : List A} (hrun : run step s acts = some u)
    (hnot : ¬ Along step C s acts) :
    ∃ xs a ys t t', acts = xs ++ a :: ys ∧ Along step C s xs ∧
      run step s xs = some t ∧ ¬ C t a ∧ step t a = some t' ∧
      run step t' ys = some u := by
  induction acts generalizing s with
  | nil => exact absurd trivial hnot
  | cons a acts ih =>
      obtain ⟨m, hm, hrest⟩ := run_cons_some hrun
      by_cases hC : C s a
      · have hlater : ¬ Along step C m acts := by
          intro h
          exact hnot ((along_cons_of_step hm).mpr ⟨hC, h⟩)
        obtain ⟨xs, b, ys, t, t', hsplit, hxs, ht, hb, hst, hys⟩ :=
          ih hrest hlater
        refine ⟨a :: xs, b, ys, t, t', by rw [hsplit]; rfl, ?_, ?_, hb, hst,
          hys⟩
        · exact (along_cons_of_step hm).mpr ⟨hC, hxs⟩
        · rw [run_cons, hm]
          exact ht
      · exact ⟨[], a, acts, s, m, rfl, trivial, rfl, hC, hm, hrest⟩

/-- Two conditions on the steps that come to the same, given an invariant of
the runs that meet one of them.  `B` is what the runs are promised. -/
theorem along_iff_along {step : S → A → Option S} {B C D : S → A → Prop}
    {I : S → Prop}
    (hinv : ∀ s a t, I s → B s a → C s a → step s a = some t → I t)
    (hiff : ∀ s a t, I s → B s a → step s a = some t → (D s a ↔ C s a))
    {s u : S} {acts : List A} (hs : I s) (hB : Along step B s acts)
    (hrun : run step s acts = some u) :
    Along step D s acts ↔ Along step C s acts := by
  induction acts generalizing s with
  | nil => exact Iff.rfl
  | cons a acts ih =>
      obtain ⟨t, hst, hrest⟩ := run_cons_some hrun
      rw [along_cons_of_step hst] at hB
      rw [along_cons_of_step hst, along_cons_of_step hst,
        hiff s a t hs hB.1 hst]
      apply and_congr_right
      intro hC
      exact ih (hinv s a t hs hB.1 hC hst) hB.2 hrest

/-- A flag that a step raises exactly when it breaks the condition, and that
stays raised: at the end it says whether the run has met the condition. -/
theorem flag_iff_not_along {step : S → A → Option S} {C : S → A → Prop}
    {F I : S → Prop} (hinv : ∀ s a t, I s → step s a = some t → I t)
    (hstep : ∀ s a t, I s → step s a = some t → (F t ↔ F s ∨ ¬ C s a))
    {s u : S} {acts : List A} (hs : I s) (hrun : run step s acts = some u) :
    F u ↔ F s ∨ ¬ Along step C s acts := by
  induction acts generalizing s with
  | nil =>
      rw [run_nil, Option.some.injEq] at hrun
      subst hrun
      exact ⟨Or.inl, fun h => h.resolve_right fun hnot => hnot trivial⟩
  | cons a acts ih =>
      obtain ⟨t, hst, hrest⟩ := run_cons_some hrun
      rw [ih (hinv s a t hs hst) hrest, hstep s a t hs hst,
        along_cons_of_step hst]
      by_cases hC : C s a
      · simp [hC]
      · simp [hC]

/-! ## Simulation -/

/-- A relation that every step can be matched under: every run of the first
program is matched by a run of the second. -/
theorem run_simulates {T B : Type} {step : S → A → Option S}
    {step' : T → B → Option T} {R : S → T → Prop}
    (hstep : ∀ s a s' t, R s t → step s a = some s' →
      ∃ b t', step' t b = some t' ∧ R s' t')
    {s u : S} {t : T} {acts : List A} (hR : R s t)
    (hrun : run step s acts = some u) :
    ∃ bs v, run step' t bs = some v ∧ R u v := by
  induction acts generalizing s t with
  | nil =>
      rw [run_nil, Option.some.injEq] at hrun
      exact ⟨[], t, rfl, hrun ▸ hR⟩
  | cons a acts ih =>
      obtain ⟨m, hm, hrest⟩ := run_cons_some hrun
      obtain ⟨b, t', hb, hR'⟩ := hstep s a m t hR hm
      obtain ⟨bs, v, hbs, hv⟩ := ih hR' hrest
      refine ⟨b :: bs, v, ?_, hv⟩
      rw [run_cons, hb]
      exact hbs

/-! ## Counting steps -/

/-- How many of the actions of the run are `useful` in the state they are
taken in. -/
def counted (step : S → A → Option S) (useful : S → A → Bool) :
    S → List A → Nat
  | _, [] => 0
  | s, a :: acts =>
      (if useful s a then 1 else 0) +
        match step s a with
        | none => 0
        | some t => counted step useful t acts

/-- A measure that a useful step takes one off and no other step changes. -/
theorem measure_add_counted {step : S → A → Option S}
    {useful : S → A → Bool} {I : S → Prop} {m : S → Nat}
    (hinv : ∀ s a t, I s → step s a = some t → I t)
    (hm : ∀ s a t, I s → step s a = some t →
      m s = m t + if useful s a then 1 else 0)
    {s u : S} {acts : List A} (hs : I s) (hrun : run step s acts = some u) :
    m u + counted step useful s acts = m s := by
  induction acts generalizing s with
  | nil =>
      rw [run_nil, Option.some.injEq] at hrun
      subst hrun
      rfl
  | cons a acts ih =>
      obtain ⟨t, hst, hrest⟩ := run_cons_some hrun
      have hih := ih (hinv s a t hs hst) hrest
      have hstep := hm s a t hs hst
      unfold counted
      rw [hst]
      show m u + (_ + counted step useful t acts) = m s
      omega

/-- Let a useful step put one into `m`, a step that serves take one out, and
the others leave `m` as it is.  Then what served, with what is left in `m`, is
what was useful, with what was in `m` before. -/
theorem counted_add_eq {step : S → A → Option S} {useful serves : S → A → Bool}
    {I : S → Prop} {m : S → Nat}
    (hinv : ∀ s a t, I s → step s a = some t → I t)
    (hm : ∀ s a t, I s → step s a = some t →
      m t + (if serves s a then 1 else 0) =
        m s + if useful s a then 1 else 0)
    {s u : S} {acts : List A} (hs : I s) (hrun : run step s acts = some u) :
    m u + counted step serves s acts = m s + counted step useful s acts := by
  induction acts generalizing s with
  | nil =>
      rw [run_nil, Option.some.injEq] at hrun
      subst hrun
      rfl
  | cons a acts ih =>
      obtain ⟨t, hst, hrest⟩ := run_cons_some hrun
      have hih := ih (hinv s a t hs hst) hrest
      have hstep := hm s a t hs hst
      unfold counted
      rw [hst]
      show m u + (_ + counted step serves t acts) =
        m s + (_ + counted step useful t acts)
      omega

/-- What only the actions that serve can end goes on, or one of them is
taken. -/
theorem lasts_or_served {step : S → A → Option S} {P : S → Prop}
    {serves : A → Prop}
    (hkeep : ∀ s a t, P s → ¬ serves a → step s a = some t → P t)
    {s u : S} {acts : List A} (hs : P s) (hrun : run step s acts = some u) :
    (∃ a ∈ acts, serves a) ∨ P u := by
  induction acts generalizing s with
  | nil =>
      rw [run_nil, Option.some.injEq] at hrun
      exact Or.inr (hrun ▸ hs)
  | cons a acts ih =>
      obtain ⟨t, hst, hrest⟩ := run_cons_some hrun
      by_cases ha : serves a
      · exact Or.inl ⟨a, List.mem_cons_self, ha⟩
      · rcases ih (hkeep s a t hs ha hst) hrest with ⟨b, hb, hserves⟩ | hu
        · exact Or.inl ⟨b, List.mem_cons_of_mem a hb, hserves⟩
        · exact Or.inr hu

/-! ## Properties of every state passed through -/

/-- Every state that the run passes through, its first and its last
included, has property `P`. -/
def Throughout (step : S → A → Option S) (P : S → Prop) (s : S)
    (acts : List A) : Prop :=
  ∀ xs ys t, acts = xs ++ ys → run step s xs = some t → P t

theorem throughout_nil {step : S → A → Option S} {P : S → Prop} {s : S} :
    Throughout step P s [] ↔ P s := by
  constructor
  · exact fun h => h [] [] s rfl rfl
  · intro hs xs ys t hsplit hrun
    obtain ⟨rfl, rfl⟩ := List.nil_eq_append_iff.mp hsplit
    rw [run_nil, Option.some.injEq] at hrun
    exact hrun ▸ hs

theorem throughout_cons {step : S → A → Option S} {P : S → Prop} {s t : S}
    {a : A} {acts : List A} (hst : step s a = some t) :
    Throughout step P s (a :: acts) ↔ P s ∧ Throughout step P t acts := by
  constructor
  · intro h
    refine ⟨h [] (a :: acts) s rfl rfl, fun xs ys u hsplit hrun => ?_⟩
    refine h (a :: xs) ys u (by rw [hsplit]; rfl) ?_
    rw [run_cons, hst]
    exact hrun
  · rintro ⟨hs, hrest⟩ xs ys u hsplit hrun
    cases xs with
    | nil =>
        rw [run_nil, Option.some.injEq] at hrun
        exact hrun ▸ hs
    | cons b xs =>
        rw [List.cons_append, List.cons.injEq] at hsplit
        obtain ⟨rfl, hsplit⟩ := hsplit
        rw [run_cons, hst] at hrun
        exact hrest xs ys u hsplit hrun

/-- The states passed through by a run of two parts. -/
theorem Throughout.append {step : S → A → Option S} {P : S → Prop} {s t : S}
    {xs ys : List A} (hrun : run step s xs = some t)
    (hxs : Throughout step P s xs) (hys : Throughout step P t ys) :
    Throughout step P s (xs ++ ys) := by
  induction xs generalizing s with
  | nil =>
      rw [run_nil, Option.some.injEq] at hrun
      exact hrun ▸ hys
  | cons a xs ih =>
      obtain ⟨m, hm, hrest⟩ := run_cons_some hrun
      rw [throughout_cons hm] at hxs
      rw [List.cons_append, throughout_cons hm]
      exact ⟨hxs.1, ih hrest hxs.2⟩

/-- Let `I` be an invariant under which a step keeps `P` exactly when it
meets `C`.  Then `P` holds throughout a run exactly when all of its steps
meet `C`. -/
theorem throughout_iff_along {step : S → A → Option S} {C : S → A → Prop}
    {P I : S → Prop}
    (hinv : ∀ s a t, I s → C s a → step s a = some t → I t)
    (hP : ∀ s, I s → P s)
    (hfail : ∀ s a t, I s → ¬ C s a → step s a = some t → ¬ P t)
    {s u : S} {acts : List A} (hs : I s) (hrun : run step s acts = some u) :
    Throughout step P s acts ↔ Along step C s acts := by
  induction acts generalizing s with
  | nil =>
      rw [throughout_nil]
      exact iff_of_true (hP s hs) trivial
  | cons a acts ih =>
      obtain ⟨t, hst, hrest⟩ := run_cons_some hrun
      rw [throughout_cons hst, along_cons_of_step hst]
      by_cases hC : C s a
      · have hrec := ih (hinv s a t hs hC hst) hrest
        exact ⟨fun h => ⟨hC, hrec.mp h.2⟩, fun h => ⟨hP s hs, hrec.mpr h.2⟩⟩
      · refine iff_of_false ?_ (fun h => hC h.1)
        intro h
        have hPt : P t := h.2 [] acts t rfl rfl
        exact hfail s a t hs hC hst hPt

end EmbeddedSystem.Verified.Transition
