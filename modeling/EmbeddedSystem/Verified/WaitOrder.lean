import EmbeddedSystem.Verified.WaitQueue

/-!
# The order of a wait queue

Waiters enter at the two ends, so the exclusive ones always stand behind the
others and in the order in which they came (`Lined`).  A wake-up with one
exclusive waiter to wake therefore reaches every non-exclusive one, and of
the exclusive ones the one that has waited longest.  `ahead q e` are the
exclusive waiters that it reaches before `e`; as long as `e` waits, nobody
comes to stand there.
-/

set_option autoImplicit false

namespace EmbeddedSystem.Verified.WaitQueue

/-- Every waiter is on the queue once, and the exclusive ones are behind the
others. -/
structure Lined (q : Queue) : Prop where
  once : (q.map Entry.waiter).Nodup
  behind : q.Pairwise fun a b => a.exclusive = true → b.exclusive = true

theorem marked_iff {q : Queue} {i : Nat} :
    marked q i = true ↔ ∃ x ∈ q, x.waiter = i := by
  simp [marked, List.any_eq_true]

theorem marked_finishWait_self (q : Queue) (i : Nat) :
    marked (finishWait q i) i = false := by
  simp [marked, finishWait]

/-- What is left of a queue was on it. -/
theorem marked_of_sublist {q q' : Queue} (h : q'.Sublist q) {i : Nat}
    (hi : marked q' i = true) : marked q i = true := by
  obtain ⟨x, hx, hxi⟩ := marked_iff.mp hi
  exact marked_iff.mpr ⟨x, h.subset hx, hxi⟩

/-! ## Staying lined up -/

theorem lined_nil : Lined [] := ⟨List.nodup_nil, List.Pairwise.nil⟩

theorem Lined.sublist {q q' : Queue} (h : Lined q) (hsub : q'.Sublist q) :
    Lined q' :=
  ⟨h.once.sublist (hsub.map Entry.waiter), h.behind.sublist hsub⟩

theorem finishWait_sublist (q : Queue) (i : Nat) :
    (finishWait q i).Sublist q := List.filter_sublist

theorem notMem_waiters {q : Queue} {i : Nat} (h : marked q i = false) :
    i ∉ q.map Entry.waiter := by
  intro hmem
  obtain ⟨x, hx, hxi⟩ := List.mem_map.mp hmem
  have hmark := marked_iff.mpr ⟨x, hx, hxi⟩
  rw [h] at hmark
  cases hmark

theorem Lined.prepareToWait {q : Queue} (h : Lined q) (i : Nat)
    (exclusive : Bool) : Lined (prepareToWait q i exclusive) := by
  unfold WaitQueue.prepareToWait
  split
  case isTrue => exact h
  case isFalse hmark =>
    have hnew := notMem_waiters (Bool.not_eq_true _ ▸ hmark)
    split
    case isTrue =>
      refine ⟨?_, ?_⟩
      · rw [List.map_append, List.nodup_append]
        refine ⟨h.once, List.pairwise_singleton _ i, fun a ha b hb => ?_⟩
        rw [List.mem_singleton.mp hb]
        rintro rfl
        exact hnew ha
      · rw [List.pairwise_append]
        refine ⟨h.behind, List.pairwise_singleton _ _, fun a _ b hb _ => ?_⟩
        rw [List.mem_singleton.mp hb]
    case isFalse =>
      refine ⟨List.nodup_cons.mpr ⟨hnew, h.once⟩,
        List.pairwise_cons.mpr ⟨fun b _ hfalse => ?_, h.behind⟩⟩
      cases hfalse

/-! ## Wake-ups -/

/-- A wake-up takes off everybody up to the first exclusive waiter. -/
theorem wakeUpInterruptible_cases (q : Queue) :
    ((∀ x ∈ q, x.exclusive = false) ∧ wakeUpInterruptible q = []) ∨
      ∃ ns f, q = ns ++ f :: wakeUpInterruptible q ∧
        (∀ x ∈ ns, x.exclusive = false) ∧ f.exclusive = true := by
  unfold wakeUpInterruptible
  induction q with
  | nil => exact Or.inl ⟨fun x hx => absurd hx List.not_mem_nil, rfl⟩
  | cons x q ih =>
      unfold wakeUpCommon
      cases hx : x.exclusive with
      | true =>
          exact Or.inr ⟨[], x, rfl, fun y hy => absurd hy List.not_mem_nil, hx⟩
      | false =>
          rw [if_neg Bool.false_ne_true]
          rcases ih with ⟨hnone, hrest⟩ | ⟨ns, f, hq, hns, hf⟩
          · refine Or.inl ⟨fun y hy => ?_, hrest⟩
            rcases List.mem_cons.mp hy with rfl | hold
            · exact hx
            · exact hnone y hold
          · refine Or.inr ⟨x :: ns, f, by rw [List.cons_append, ← hq],
              fun y hy => ?_, hf⟩
            rcases List.mem_cons.mp hy with rfl | hold
            · exact hx
            · exact hns y hold

theorem wakeUpInterruptible_sublist (q : Queue) :
    (wakeUpInterruptible q).Sublist q := by
  rcases wakeUpInterruptible_cases q with ⟨-, hnil⟩ | ⟨ns, f, hq, -, -⟩
  · rw [hnil]
    exact List.nil_sublist q
  · have hsub : (wakeUpInterruptible q).Sublist
        (ns ++ f :: wakeUpInterruptible q) :=
      (List.sublist_cons_self f _).trans (List.sublist_append_right ns _)
    rwa [← hq] at hsub

/-- It leaves exclusive waiters only. -/
theorem Lined.exclusive_of_wake {q : Queue} (h : Lined q) {x : Entry}
    (hx : x ∈ wakeUpInterruptible q) : x.exclusive = true := by
  rcases wakeUpInterruptible_cases q with ⟨-, hnil⟩ | ⟨ns, f, hq, -, hf⟩
  · rw [hnil] at hx
    cases hx
  · have hbehind := h.behind
    rw [hq, List.pairwise_append, List.pairwise_cons] at hbehind
    exact hbehind.2.1.1 x hx hf

/-- `wake_up_interruptible_all` leaves nobody. -/
theorem wakeUpInterruptibleAll_eq_nil (q : Queue) :
    wakeUpInterruptibleAll q = [] := by
  unfold wakeUpInterruptibleAll
  induction q with
  | nil => rfl
  | cons x q ih =>
      unfold wakeUpCommon
      split
      · exact ih
      · exact ih

/-! ## Who is ahead -/

/-- The exclusive waiters in front of waiter `e`. -/
def ahead : Queue → Nat → List Nat
  | [], _ => []
  | x :: q, e =>
      if x.waiter = e then []
      else if x.exclusive then x.waiter :: ahead q e
      else ahead q e

theorem marked_of_ahead {q : Queue} {e j : Nat} (h : j ∈ ahead q e) :
    marked q j = true := by
  induction q with
  | nil => cases h
  | cons x q ih =>
      have htail : ∀ {k}, marked q k = true → marked (x :: q) k = true :=
        fun hk => marked_of_sublist (List.sublist_cons_self x q) hk
      unfold ahead at h
      split at h
      · cases h
      · split at h
        · rcases List.mem_cons.mp h with rfl | hrest
          · exact marked_iff.mpr ⟨x, List.mem_cons_self, rfl⟩
          · exact htail (ih hrest)
        · exact htail (ih h)

/-- A waiter that leaves leaves nobody new ahead. -/
theorem ahead_finishWait {q : Queue} {i e j : Nat} (hie : i ≠ e)
    (h : j ∈ ahead (finishWait q i) e) : j ∈ ahead q e := by
  induction q with
  | nil => exact h
  | cons x q ih =>
      by_cases hxi : x.waiter = i
      · have hdrop : finishWait (x :: q) i = finishWait q i := by
          simp [finishWait, hxi]
        have hxe : x.waiter ≠ e := by omega
        rw [hdrop] at h
        unfold ahead
        rw [if_neg hxe]
        split
        · exact List.mem_cons_of_mem _ (ih h)
        · exact ih h
      · have hkeep : finishWait (x :: q) i = x :: finishWait q i := by
          simp [finishWait, hxi]
        rw [hkeep] at h
        unfold ahead at h ⊢
        split at h
        case isTrue => cases h
        case isFalse hxe =>
          rw [if_neg hxe]
          split at h
          case isTrue hex =>
            rw [if_pos hex]
            rcases List.mem_cons.mp h with rfl | hrest
            · exact List.mem_cons_self
            · exact List.mem_cons_of_mem _ (ih hrest)
          case isFalse hex =>
            rw [if_neg hex]
            exact ih h

theorem ahead_append {q : Queue} {e : Nat} (he : marked q e = true)
    (r : Queue) : ahead (q ++ r) e = ahead q e := by
  induction q with
  | nil => cases he
  | cons x q ih =>
      rw [List.cons_append]
      unfold ahead
      by_cases hxe : x.waiter = e
      · rw [if_pos hxe, if_pos hxe]
      · have hrest : marked q e = true := by
          simpa [marked, hxe] using he
        rw [if_neg hxe, if_neg hxe, ih hrest]

/-- A new waiter comes to stand behind `e`, or it is not exclusive. -/
theorem ahead_prepareToWait {q : Queue} {i e : Nat} (exclusive : Bool)
    (hie : i ≠ e) (he : marked q e = true) :
    ahead (prepareToWait q i exclusive) e = ahead q e := by
  unfold prepareToWait
  split
  · rfl
  · split
    · exact ahead_append he _
    · unfold ahead
      rw [if_neg hie, if_neg Bool.false_ne_true]
      cases q <;> rfl

/-- A wake-up that does not reach `e` reaches an exclusive waiter ahead of it
and brings nobody new there. -/
theorem ahead_wake {q : Queue} {e : Nat} (h : Lined q)
    (he : marked (wakeUpInterruptible q) e = true) :
    ∃ f ∈ q, f.waiter ∈ ahead q e ∧
      marked (wakeUpInterruptible q) f.waiter = false ∧
      ∀ j ∈ ahead (wakeUpInterruptible q) e, j ∈ ahead q e := by
  rcases wakeUpInterruptible_cases q with ⟨-, hnil⟩ | ⟨ns, f, hq, hns, hf⟩
  · rw [hnil] at he
    cases he
  generalize wakeUpInterruptible q = q' at hq he
  subst hq
  have honce := h.once
  rw [List.map_append, List.map_cons, List.nodup_append,
    List.nodup_cons] at honce
  obtain ⟨-, ⟨hfnew, -⟩, happart⟩ := honce
  obtain ⟨x, hx, hxe⟩ := marked_iff.mp he
  have hmem : e ∈ q'.map Entry.waiter := List.mem_map.mpr ⟨x, hx, hxe⟩
  have hfe : f.waiter ≠ e := by
    intro heq
    rw [heq] at hfnew
    exact hfnew hmem
  have hgone : marked q' f.waiter = false := by
    cases hm : marked q' f.waiter with
    | false => rfl
    | true =>
        obtain ⟨y, hy, hyf⟩ := marked_iff.mp hm
        exact absurd (List.mem_map.mpr ⟨y, hy, hyf⟩) hfnew
  have hskip : ∀ ms : Queue, (∀ y ∈ ms, y.exclusive = false) →
      (∀ y ∈ ms, y.waiter ≠ e) → ahead (ms ++ f :: q') e =
        f.waiter :: ahead q' e := by
    intro ms
    induction ms with
    | nil =>
        intro _ _
        rw [List.nil_append, ahead, if_neg hfe, if_pos hf]
    | cons y ms ih =>
        intro hex hne
        rw [List.cons_append, ahead, if_neg (hne y List.mem_cons_self),
          hex y List.mem_cons_self, if_neg Bool.false_ne_true]
        exact ih (fun z hz => hex z (List.mem_cons_of_mem y hz))
          (fun z hz => hne z (List.mem_cons_of_mem y hz))
  have hahead := hskip ns hns fun y hy heq =>
    happart y.waiter (List.mem_map_of_mem hy) e
      (List.mem_cons_of_mem _ hmem) heq
  refine ⟨f, List.mem_append_right ns List.mem_cons_self, ?_, hgone,
    fun j hj => ?_⟩
  · rw [hahead]
    exact List.mem_cons_self
  · rw [hahead]
    exact List.mem_cons_of_mem _ hj

end EmbeddedSystem.Verified.WaitQueue
