import EmbeddedSystem.Verified.CallPool

/-!
# A cell that is changed without a lock

The calls of a pool work on one cell.  A call loads the value, computes, and
stores; the loads and stores of other calls may fall between.  `stores` are
the operations whose results were stored, in the order of the stores.

A call that stores what it computed from an old value takes back what was
stored since.  So no value is ever seen that is not the result of some of the
operations, one after another, in the order of their stores
(`Explained.run`).  It is the result of all of them as long as no store takes
anything back (`inSequence_iff_undisturbed`).
-/

set_option autoImplicit false

namespace EmbeddedSystem.Verified.SharedCell

open EmbeddedSystem.Verified.Transition
open EmbeddedSystem.Verified.CallPool

variable {V A L K O : Type}

structure Cell (V A : Type) where
  value : V
  stores : List A
deriving DecidableEq, Repr

/-! ## Results of operations -/

/-- The result of some of the operations. -/
def Result (apply : V → A → V) (v₀ : V) (stores : List A) (v : V) : Prop :=
  ∃ ops : List A, ops.Sublist stores ∧ v = ops.foldl apply v₀

section Result

variable {apply : V → A → V} {v₀ v : V} {stores : List A}

theorem result_start : Result apply v₀ [] v₀ :=
  ⟨[], List.Sublist.refl [], rfl⟩

theorem Result.concat (h : Result apply v₀ stores v) (a : A) :
    Result apply v₀ (stores ++ [a]) v := by
  obtain ⟨ops, hops, hv⟩ := h
  exact ⟨ops, hops.trans (List.sublist_append_left stores [a]), hv⟩

theorem Result.next (h : Result apply v₀ stores v) (a : A) :
    Result apply v₀ (stores ++ [a]) (apply v a) := by
  obtain ⟨ops, hops, rfl⟩ := h
  refine ⟨ops ++ [a], hops.append (List.Sublist.refl [a]), ?_⟩
  rw [List.foldl_append]
  rfl

end Result

/-! ## Calls on the cell -/

/-- The cell after a step of a call.  `next` is what the call is about to
store, and the operation. -/
def stored (next : L → Option (V × A)) (g : Cell V A) (l : L) : Cell V A :=
  match next l with
  | none => g
  | some x => ⟨x.1, g.stores ++ [x.2]⟩

/-- A call loads the value, and stores the result of its operation on the
value or on one that it has loaded.  `known` are the values it has loaded. -/
structure Discipline (apply : V → A → V) (known : L → List V)
    (next : L → Option (V × A)) (enter : K → L)
    (body : Cell V A → Nat → L → O → Option (Cell V A × L)) : Prop where
  fresh : ∀ k, known (enter k) = []
  stores : ∀ g i l o g' l', body g i l o = some (g', l') →
    g' = stored next g l
  loads : ∀ g i l o g' l', body g i l o = some (g', l') →
    ∀ v ∈ known l', v ∈ g.value :: known l
  computes : ∀ (v : V) l x, next l = some x →
    ∃ w ∈ v :: known l, x.1 = apply w x.2

/-- All values around are results of some of the operations. -/
structure Explained (apply : V → A → V) (known : L → List V) (v₀ : V)
    (c : Conf (Cell V A) L) : Prop where
  value : Result apply v₀ c.shared.stores c.shared.value
  known : ∀ (i : Nat) (l : L), c.calls[i]? = some l → ∀ v ∈ known l,
    Result apply v₀ c.shared.stores v

/-- The cell has the result of all operations. -/
def InSequence (apply : V → A → V) (v₀ : V) (c : Conf (Cell V A) L) : Prop :=
  c.shared.value = c.shared.stores.foldl apply v₀

/-- The next step of call `i` takes nothing back: what it stores is the result
of its operation on the value that is there. -/
def Undisturbed (apply : V → A → V) (next : L → Option (V × A))
    (c : Conf (Cell V A) L) : Move K O → Prop
  | .issue _ => True
  | .advance i _ => ∀ l ∈ c.calls[i]?, ∀ x ∈ next l,
      x.1 = apply c.shared.value x.2

instance [DecidableEq V] (apply : V → A → V) (next : L → Option (V × A))
    (c : Conf (Cell V A) L) :
    ∀ mv : Move K O, Decidable (Undisturbed apply next c mv)
  | .issue _ => inferInstanceAs (Decidable True)
  | .advance _ _ => inferInstanceAs (Decidable (∀ _ ∈ _, _))

section Discipline

variable {apply : V → A → V} {known : L → List V}
  {next : L → Option (V × A)} {enter : K → L}
  {body : Cell V A → Nat → L → O → Option (Cell V A × L)} {v₀ : V}

theorem explained_start :
    Explained apply known v₀ (start ⟨v₀, []⟩ : Conf (Cell V A) L) where
  value := result_start
  known := fun i l hl => by cases hl

theorem Explained.step (hd : Discipline apply known next enter body)
    {c d : Conf (Cell V A) L} {mv : Move K O}
    (h : Explained apply known v₀ c)
    (hst : CallPool.step enter body c mv = some d) :
    Explained apply known v₀ d := by
  rcases step_cases hst with ⟨k, -, rfl⟩ | ⟨i, o, l, g, l', -, hl, hb, rfl⟩
  · refine ⟨h.value, fun j m hm v hv => ?_⟩
    rcases lookup_append_cases hm with hold | ⟨-, rfl⟩
    · exact h.known j m hold v hv
    · rw [hd.fresh] at hv
      cases hv
  · have hold : ∀ v ∈ c.shared.value :: known l,
        Result apply v₀ c.shared.stores v := by
      intro v hv
      rcases List.mem_cons.mp hv with rfl | hv
      · exact h.value
      · exact h.known i l hl v hv
    have hloads := hd.loads _ _ _ _ _ _ hb
    have hseen : ∀ (j : Nat) (m : L), (c.calls.set i l')[j]? = some m →
        ∀ v ∈ known m, Result apply v₀ c.shared.stores v := by
      intro j m hm v hv
      rcases lookup_set_cases hl hm with ⟨-, rfl⟩ | ⟨-, hother⟩
      · exact hold v (hloads v hv)
      · exact h.known j m hother v hv
    rw [hd.stores _ _ _ _ _ _ hb]
    unfold stored
    cases hnext : next l with
    | none => exact ⟨h.value, hseen⟩
    | some x =>
        obtain ⟨w, hw, hx⟩ := hd.computes c.shared.value l x hnext
        refine ⟨?_, fun j m hm v hv => (hseen j m hm v hv).concat x.2⟩
        show Result apply v₀ (c.shared.stores ++ [x.2]) x.1
        rw [hx]
        exact (hold w hw).next x.2

theorem Explained.run (hd : Discipline apply known next enter body)
    {c : Conf (Cell V A) L} {mvs : List (Move K O)}
    (hrun : Transition.run (CallPool.step enter body) (start ⟨v₀, []⟩) mvs =
      some c) : Explained apply known v₀ c :=
  run_induct (fun _ _ _ h hst => Explained.step hd h hst) explained_start hrun

/-- The cell has the result of all operations throughout a run if and only if
no store of the run takes anything back. -/
theorem inSequence_iff_undisturbed
    (hd : Discipline apply known next enter body)
    {c d : Conf (Cell V A) L} {mvs : List (Move K O)}
    (hc : InSequence apply v₀ c)
    (hrun : Transition.run (CallPool.step enter body) c mvs = some d) :
    Throughout (CallPool.step enter body) (InSequence apply v₀) c mvs ↔
      Along (CallPool.step enter body) (Undisturbed apply next) c mvs := by
  refine throughout_iff_along (I := InSequence apply v₀) ?_ (fun _ h => h) ?_
    hc hrun
  · intro c mv d h hin hst
    rcases step_cases hst with
      ⟨k, rfl, rfl⟩ | ⟨i, o, l, g, l', rfl, hl, hb, rfl⟩
    · exact h
    · rw [hd.stores _ _ _ _ _ _ hb]
      unfold stored
      cases hnext : next l with
      | none => exact h
      | some x =>
          have hx : x.1 = apply c.shared.value x.2 := hin l hl x hnext
          show x.1 = (c.shared.stores ++ [x.2]).foldl apply v₀
          rw [hx, List.foldl_append, ← h]
          rfl
  · intro c mv d h hout hst hlater
    rcases step_cases hst with
      ⟨k, rfl, rfl⟩ | ⟨i, o, l, g, l', rfl, hl, hb, rfl⟩
    · exact hout trivial
    · refine hout fun m hm x hx => ?_
      rw [hl, Option.mem_some_iff] at hm
      subst hm
      have hnext : next l = some x := hx
      rw [hd.stores _ _ _ _ _ _ hb] at hlater
      unfold stored at hlater
      rw [hnext] at hlater
      have hvalue : x.1 = (c.shared.stores ++ [x.2]).foldl apply v₀ := hlater
      rw [hvalue, List.foldl_append, ← h]
      rfl

end Discipline

end EmbeddedSystem.Verified.SharedCell
