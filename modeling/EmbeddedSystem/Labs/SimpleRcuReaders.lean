import EmbeddedSystem.Labs.SimpleRcuOwners

/-!
# What the readers of `simple_rcu` see

A reader keeps the pointer that `rcu_dereference` gave it across a delay, and
a writer may replace the version in the meantime.  The version a reader holds
is `HeldVersion`: it is the current one, or its writer has not come through
the grace period yet and waits for this reader.  Either way the version has an
owner that does not free it, so it is live, and nobody stores to it.

With that, the value a reader prints is the value published last at its
`rcu_dereference` (`published` follows the publications along a run).
-/

set_option autoImplicit false

namespace EmbeddedSystem.Labs.SimpleRcu

open EmbeddedSystem.Verified
open EmbeddedSystem.Verified.Transition
open EmbeddedSystem.Verified.CallPool

/-! ## The steps of a reader -/

/-- The steps of `readStep`, one constructor for each way through it. -/
inductive ReadStep (g : Rcu) (i : Nat) (r : ReadCall) : Rcu → ReadCall → Prop where
  | lock (hpc : r.pc = .lock) :
      ReadStep g i r { g with readers := i :: g.readers }
        { r with pc := .dereference }
  | foundNull (hpc : r.pc = .dereference) (hnull : g.myData = none) :
      ReadStep g i r g { r with old := g.myData, pc := .unlock }
  | dereference (p : Nat) (hpc : r.pc = .dereference)
      (hdata : g.myData = some p) :
      ReadStep g i r g { r with old := some p, pc := .firstPrint }
  | firstPrint (p : Nat) (hpc : r.pc = .firstPrint) (hold : r.old = some p) :
      ReadStep g i r { g with slab := g.slab.touch p }
        { r with
          printed := r.printed ++ [(g.slab.get p).getD 0]
          pc := .secondPrint }
  | secondPrint (p : Nat) (hpc : r.pc = .secondPrint)
      (hold : r.old = some p) :
      ReadStep g i r { g with slab := g.slab.touch p }
        { r with
          printed := r.printed ++ [(g.slab.get p).getD 0]
          pc := .unlock }
  | unlock (hpc : r.pc = .unlock) :
      ReadStep g i r { g with readers := g.readers.filter (· != i) }
        { r with pc := .returned }

theorem readStep_cases {g g' : Rcu} {i : Nat} {r r' : ReadCall}
    (h : readStep g i r = some (g', r')) : ReadStep g i r g' r' := by
  unfold readStep at h
  split at h
  case h_1 hpc =>
    cases h
    exact .lock hpc
  case h_2 hpc =>
    cases hdata : g.myData with
    | none =>
        simp only [hdata, if_true, Option.some.injEq, Prod.mk.injEq] at h
        obtain ⟨rfl, rfl⟩ := h
        rw [← hdata]
        exact .foundNull hpc hdata
    | some p =>
        simp only [hdata, reduceCtorEq, if_false, Option.some.injEq,
          Prod.mk.injEq] at h
        obtain ⟨rfl, rfl⟩ := h
        exact .dereference p hpc hdata
  case h_3 hpc =>
    split at h
    case h_1 => cases h
    case h_2 p hold =>
      cases h
      exact .firstPrint p hpc hold
  case h_4 hpc =>
    split at h
    case h_1 => cases h
    case h_2 p hold =>
      cases h
      exact .secondPrint p hpc hold
  case h_5 hpc =>
    cases h
    exact .unlock hpc
  case h_6 => cases h

/-- A grace period is over when none of the readers it waits for is in its
critical section any more. -/
theorem writeStep_gracePeriod {g g' : Rcu} {w w' : WriteCall}
    {mem : Option (BitVec 64)} {waitFor : List Nat}
    (h : writeStep g w mem = some (g', w')) (hpc : w.pc = .gracePeriod waitFor)
    {j : Nat} (hj : j ∈ waitFor) : j ∉ g.readers := by
  unfold writeStep at h
  rw [hpc] at h
  dsimp only at h
  split at h
  case isTrue => cases h
  case isFalse hnone =>
    intro hin
    exact hnone (List.any_eq_true.mpr ⟨j, hj, by simpa using hin⟩)

/-- The writer's step waits for the readers it has to wait for. -/
def Waits (g : Rcu) (w : WriteCall) : Prop :=
  ∀ waitFor, w.pc = .gracePeriod waitFor → ∀ j ∈ waitFor, j ∉ g.readers

/-- A step of the module: a reader's or a writer's. -/
theorem simpleRcuStep_inv {g g' : Rcu} {i : Nat} {l l' : Call}
    {mem : Option (BitVec 64)}
    (h : simpleRcuStep g i l mem = some (g', l')) :
    (∃ r r', l = .read r ∧ l' = .read r' ∧ ReadStep g i r g' r') ∨
      ∃ w w', l = .write w ∧ l' = .write w' ∧ WriteStep g w g' w' ∧
        Waits g w := by
  rcases simpleRcuStep_split h with
    ⟨r, r', hl, hl', hr⟩ | ⟨w, w', hl, hl', hw⟩
  · exact Or.inl ⟨r, r', hl, hl', readStep_cases hr⟩
  · exact Or.inr ⟨w, w', hl, hl', writeStep_step hw,
      fun _ hpc _ hj => writeStep_gracePeriod hw hpc hj⟩

/-! ## The version in a reader's hands -/

/-- Version `p` is current, or the writer that has replaced it waits for
reader `i`. -/
def HeldVersion (c : Conf) (i p : Nat) : Prop :=
  c.shared.myData = some p ∨
    ∃ (j : Nat) (w : WriteCall), c.calls[j]? = some (.write w) ∧
      w.old = some p ∧
      (w.pc = .synchronize ∨
        ∃ waitFor, w.pc = .gracePeriod waitFor ∧ i ∈ waitFor)

/-- Nothing is owned twice. -/
theorem SoleOwners.owned_le_one {c : Conf} (h : SoleOwners c) (p : Nat) :
    current c.shared p + total (owns p) c.calls ≤ 1 := by
  have hcons := h.conserved p
  unfold alive at hcons
  split at hcons <;> omega

/-- Such a version is owned by `my_data` or by a writer that waits. -/
theorem HeldVersion.owner {c : Conf} {i p : Nat} (h : HeldVersion c i p) :
    current c.shared p = 1 ∨
      ∃ (j : Nat) (w : WriteCall), c.calls[j]? = some (.write w) ∧
        owns p (.write w) = 1 ∧ w.pc ≠ .store := by
  rcases h with hdata | ⟨j, w, hj, hold, hpc | ⟨waitFor, hpc, -⟩⟩
  · exact Or.inl (by simp [current, hdata])
  · exact Or.inr ⟨j, w, hj, by simp [owns, hpc, hold], by simp [hpc]⟩
  · exact Or.inr ⟨j, w, hj, by simp [owns, hpc, hold], by simp [hpc]⟩

theorem HeldVersion.live {c : Conf} {i p : Nat} (hs : SoleOwners c)
    (h : HeldVersion c i p) : c.shared.slab.live p = true := by
  apply hs.live_of_owned
  rcases h.owner with hcur | ⟨j, w, hj, howns, -⟩
  · omega
  · have hle := le_total (owns p) hj
    omega

/-- What a writer is about to store to belongs to nobody else. -/
theorem SoleOwners.stores_apart {c : Conf} (h : SoleOwners c) {i p : Nat}
    {w : WriteCall} (hl : c.calls[i]? = some (.write w))
    (hpc : w.pc = .store) (hnew : w.new = some p) :
    current c.shared p = 0 ∧
      ∀ (j : Nat) (u : WriteCall), c.calls[j]? = some (.write u) →
        owns p (.write u) = 1 → u.pc = .store := by
  have hone : owns p (.write w) = 1 := by simp [owns, hpc, hnew]
  have hsum := h.owned_le_one p
  have hle := le_total (owns p) hl
  refine ⟨by omega, fun j u hj hu => ?_⟩
  by_cases hij : i = j
  · subst hij
    rw [hl, Option.some.injEq, Call.write.injEq] at hj
    rw [← hj]
    exact hpc
  · have htwo := add_le_total (owns p) hij hl hj
    omega

/-! ## Contents -/

/-- A writer's step changes only what it stores to. -/
theorem WriteStep.get {g g' : Rcu} {w w' : WriteCall} {p : Nat}
    {v : BitVec 64} (h : WriteStep g w g' w') (hp : g.slab.get p = some v)
    (hstore : w.pc = .store → w.new ≠ some p) : g'.slab.get p = some v := by
  cases h with
  | alloc junk hpc =>
      exact (Slab.get_kmalloc_of_lt g.slab junk
        (Slab.lt_fresh_of_get hp)).trans hp
  | store q hpc hnew =>
      have hne : q ≠ p := by
        rintro rfl
        exact hstore hpc hnew
      show ((g.slab.touch q).put q w.arg).get p = some v
      rw [Slab.get_put_ne _ _ hne, Slab.get_touch]
      exact hp
  | freeOld q hpc hold => exact (Slab.get_kfree g.slab q p).trans hp
  | _ => exact hp

/-- A step of the module leaves the contents of an object alone that has an
owner other than a writer about to store to it. -/
theorem SoleOwners.get_step {c : Conf} (h : SoleOwners c) {i p : Nat}
    {l l' : Call} {g' : Rcu} {mem : Option (BitVec 64)} {v : BitVec 64}
    (hl : c.calls[i]? = some l)
    (hst : simpleRcuStep c.shared i l mem = some (g', l'))
    (howner : current c.shared p = 1 ∨
      ∃ (j : Nat) (w : WriteCall), c.calls[j]? = some (.write w) ∧
        owns p (.write w) = 1 ∧ w.pc ≠ .store)
    (hp : c.shared.slab.get p = some v) : g'.slab.get p = some v := by
  rcases simpleRcuStep_inv hst with
    ⟨r, r', hr, hr', hread⟩ | ⟨w, w', hw, hw', hwrite, -⟩
  · cases hread with
    | firstPrint q hpc hold => exact (Slab.get_touch _ q p).trans hp
    | secondPrint q hpc hold => exact (Slab.get_touch _ q p).trans hp
    | _ => exact hp
  · subst hw
    refine hwrite.get hp fun hpc hnew => ?_
    obtain ⟨hcur, hothers⟩ := h.stores_apart hl hpc hnew
    rcases howner with hone | ⟨j, u, hj, howns, hne⟩
    · omega
    · exact hne (hothers j u hj howns)

/-! ## The invariant -/

/-- The reader is in its critical section. -/
def ReadCall.inside (r : ReadCall) : Prop :=
  r.pc ≠ .lock ∧ r.pc ≠ .returned

/-- The reader will use the pointer it has. -/
def ReadCall.holding (r : ReadCall) : Prop :=
  r.pc = .firstPrint ∨ r.pc = .secondPrint

/-- The current version contains `v`. -/
def Offers (g : Rcu) (v : BitVec 64) : Prop :=
  g.myData.bind g.slab.get = some v

/-- What the readers rely on. -/
structure Readers (c : Conf) : Prop where
  neverStale : c.shared.slab.stale = 0
  registered : ∀ (i : Nat) (r : ReadCall), c.calls[i]? = some (.read r) →
    r.inside → i ∈ c.shared.readers
  held : ∀ (i : Nat) (r : ReadCall), c.calls[i]? = some (.read r) →
    r.holding → ∃ p, r.old = some p ∧ HeldVersion c i p
  stored : ∀ (i : Nat) (w : WriteCall), c.calls[i]? = some (.write w) →
    w.pc = .loadOld ∨ w.pc = .assign →
    w.new.bind c.shared.slab.get = some w.arg

theorem loaded_readers (junk : BitVec 64) : Readers (loaded junk) := by
  have hnone : ∀ (i : Nat) (l : Call), (loaded junk).calls[i]? ≠ some l := by
    intro i l hl
    simp [loaded, start] at hl
  exact
    { neverStale := rfl
      registered := fun i r hl => absurd hl (hnone i _)
      held := fun i r hl => absurd hl (hnone i _)
      stored := fun i w hl => absurd hl (hnone i _) }

theorem loaded_offers (junk : BitVec 64) : Offers (loaded junk).shared 0 := by
  rfl

/-! ## What the steps keep of it -/

/-- A call that was just issued is at its first statement. -/
theorem simpleIoctl_first (k : Ioctl) :
    (∀ r, simpleIoctl k = .read r → r.pc = .lock) ∧
      ∀ w, simpleIoctl k = .write w → w.pc = .alloc := by
  refine ⟨fun r h => ?_, (simpleIoctl_fresh k).2.2⟩
  unfold simpleIoctl at h
  split at h
  · cases h
    rfl
  · split at h <;> cases h

/-- A version stays in a reader's hands as long as `my_data` and the writers
are as they were. -/
theorem HeldVersion.mono {c d : Conf} {i p : Nat} (h : HeldVersion c i p)
    (hdata : d.shared.myData = c.shared.myData)
    (hwriters : ∀ (j : Nat) (w : WriteCall), c.calls[j]? = some (.write w) →
      d.calls[j]? = some (.write w)) : HeldVersion d i p := by
  rcases h with hcur | ⟨j, w, hj, hrest⟩
  · exact Or.inl (hdata.trans hcur)
  · exact Or.inr ⟨j, w, hwriters j w hj, hrest⟩

/-- A writer takes no version out of the hands of a reader that is in its
critical section: it publishes over the version it has loaded, and its grace
period does not end before the reader has left. -/
theorem HeldVersion.write {c : Conf} {g : Rcu} {i j p : Nat}
    {w w' : WriteCall} (hs : SoleOwners c) (h : HeldVersion c j p)
    (hj : j ∈ c.shared.readers) (hl : c.calls[i]? = some (.write w))
    (hst : WriteStep c.shared w g w') (hwait : Waits c.shared w) :
    HeldVersion ⟨g, c.calls.set i (.write w')⟩ j p := by
  have hself : (c.calls.set i (.write w'))[i]? = some (.write w') :=
    lookup_set_self hl
  rcases h with hcur | ⟨k, u, hk, hold, hpc⟩
  · rcases hst.myData with hsame | ⟨hpc, -⟩
    · exact Or.inl (hsame.trans hcur)
    · -- the writer has loaded the version it replaces
      have hup := hs.upToDate i w hl hpc
      cases hst with
      | assign _ =>
          exact Or.inr ⟨i, _, hself, hup.trans hcur, Or.inl rfl⟩
      | _ => exact Or.inl hcur
  · by_cases hik : i = k
    · subst hik
      rw [hl, Option.some.injEq, Call.write.injEq] at hk
      subst hk
      rcases hpc with hpc | ⟨waitFor, hpc, hin⟩
      · cases hst with
        | synchronize _ =>
            exact Or.inr ⟨i, _, hself, hold, Or.inr ⟨_, rfl, hj⟩⟩
        | _ => simp_all
      · exact absurd hj (hwait waitFor hpc j hin)
    · exact Or.inr ⟨k, u, lookup_set_ne _ hik hk, hold, hpc⟩

theorem ReadStep.myData {g g' : Rcu} {i : Nat} {r r' : ReadCall}
    (h : ReadStep g i r g' r') : g'.myData = g.myData := by
  cases h <;> rfl

/-- A reader leaves the other readers registered, and itself until it ends
its critical section. -/
theorem ReadStep.readers {g g' : Rcu} {i : Nat} {r r' : ReadCall}
    (h : ReadStep g i r g' r') :
    (∀ j, i ≠ j → j ∈ g.readers → j ∈ g'.readers) ∧
      (r'.inside → (r.inside → i ∈ g.readers) → i ∈ g'.readers) := by
  cases h with
  | lock hpc =>
      exact ⟨fun j _ hj => List.mem_cons_of_mem i hj,
        fun _ _ => List.mem_cons_self⟩
  | unlock hpc =>
      refine ⟨fun j hij hj => ?_, fun hin => absurd rfl hin.2⟩
      rw [List.mem_filter, bne_iff_ne]
      exact ⟨hj, fun h => hij h.symm⟩
  | _ => exact ⟨fun _ _ hj => hj, fun _ hreg => hreg (by simp_all [ReadCall.inside])⟩

/-- What a reader goes on with: the pointer it has, or the current one. -/
theorem ReadStep.holding {g g' : Rcu} {i : Nat} {r r' : ReadCall}
    (h : ReadStep g i r g' r') (hr' : r'.holding) :
    (r.holding ∧ r'.old = r.old) ∨
      ∃ p, r'.old = some p ∧ g.myData = some p := by
  cases h with
  | firstPrint p hpc hold => exact Or.inl ⟨Or.inl hpc, rfl⟩
  | dereference p hpc hdata => exact Or.inr ⟨p, rfl, hdata⟩
  | _ => rcases hr' with h | h <;> cases h

/-- Every access of a reader goes through the pointer it holds. -/
theorem ReadStep.stale {g g' : Rcu} {i : Nat} {r r' : ReadCall}
    (h : ReadStep g i r g' r')
    (hlive : r.holding → ∃ p, r.old = some p ∧ g.slab.live p = true) :
    g'.slab.stale = g.slab.stale := by
  cases h with
  | firstPrint p hpc hold =>
      obtain ⟨q, hq, hqlive⟩ := hlive (Or.inl hpc)
      cases hold.symm.trans hq
      show (g.slab.touch p).stale = g.slab.stale
      rw [Slab.touch_of_live hqlive]
  | secondPrint p hpc hold =>
      obtain ⟨q, hq, hqlive⟩ := hlive (Or.inr hpc)
      cases hold.symm.trans hq
      show (g.slab.touch p).stale = g.slab.stale
      rw [Slab.touch_of_live hqlive]
  | _ => rfl

theorem Readers.issue {c : Conf} (h : Readers c) (k : Ioctl) :
    Readers ⟨c.shared, c.calls ++ [simpleIoctl k]⟩ := by
  obtain ⟨hread, hwrite⟩ := simpleIoctl_first k
  refine
    { neverStale := h.neverStale
      registered := fun i r hl hin => ?_
      held := fun i r hl hhold => ?_
      stored := fun i w hl hpc => ?_ }
  · rcases lookup_append_cases hl with hold | ⟨-, hnew⟩
    · exact h.registered i r hold hin
    · exact absurd (hread r hnew.symm) hin.1
  · rcases lookup_append_cases hl with hold | ⟨-, hnew⟩
    · obtain ⟨p, hp, hheld⟩ := h.held i r hold hhold
      exact ⟨p, hp, hheld.mono rfl fun j w hj => lookup_append_old _ hj⟩
    · have hlock := hread r hnew.symm
      rcases hhold with hpc | hpc <;> rw [hlock] at hpc <;> cases hpc
  · rcases lookup_append_cases hl with hold | ⟨-, hnew⟩
    · exact h.stored i w hold hpc
    · have halloc := hwrite w hnew.symm
      rcases hpc with hpc | hpc <;> rw [halloc] at hpc <;> cases hpc

/-- A writer that has stored its argument owns what it stored it to. -/
theorem owner_of_stored {c : Conf} {i p : Nat} {w : WriteCall}
    (hl : c.calls[i]? = some (.write w))
    (hpc : w.pc = .loadOld ∨ w.pc = .assign) (hnew : w.new = some p) :
    ∃ (j : Nat) (u : WriteCall), c.calls[j]? = some (.write u) ∧
      owns p (.write u) = 1 ∧ u.pc ≠ .store := by
  refine ⟨i, w, hl, ?_, ?_⟩
  · rcases hpc with hpc | hpc <;> simp [owns, hpc, hnew]
  · rcases hpc with hpc | hpc <;> simp [hpc]

/-- What another call's step leaves of a stored argument. -/
theorem Readers.stored_step {c : Conf} (h : Readers c) (hs : SoleOwners c)
    {i j : Nat} {l l' : Call} {g : Rcu} {mem : Option (BitVec 64)}
    {u : WriteCall} (hl : c.calls[i]? = some l)
    (hst : simpleRcuStep c.shared i l mem = some (g, l'))
    (hj : c.calls[j]? = some (.write u))
    (hpc : u.pc = .loadOld ∨ u.pc = .assign) :
    u.new.bind g.slab.get = some u.arg := by
  have hold := h.stored j u hj hpc
  obtain ⟨p, hp⟩ := hs.newVersion j u hj hpc
  rw [hp, Option.bind_some] at hold ⊢
  exact hs.get_step hl hst (Or.inr (owner_of_stored hj hpc hp)) hold

theorem Readers.read {c : Conf} (h : Readers c) (hs : SoleOwners c)
    {i : Nat} {g : Rcu} {r r' : ReadCall} {mem : Option (BitVec 64)}
    (hl : c.calls[i]? = some (.read r))
    (hst : simpleRcuStep c.shared i (.read r) mem = some (g, .read r'))
    (hread : ReadStep c.shared i r g r') :
    Readers ⟨g, c.calls.set i (.read r')⟩ := by
  have hwriters : ∀ (j : Nat) (w : WriteCall),
      c.calls[j]? = some (.write w) →
        (c.calls.set i (.read r'))[j]? = some (.write w) := by
    intro j w hj
    refine lookup_set_ne _ ?_ hj
    rintro rfl
    rw [hl] at hj
    cases hj
  have hheld : ∀ {j p : Nat}, HeldVersion c j p →
      HeldVersion ⟨g, c.calls.set i (.read r')⟩ j p :=
    fun hp => hp.mono hread.myData hwriters
  refine
    { neverStale := ?_
      registered := fun j s hj hin => ?_
      held := fun j s hj hhold => ?_
      stored := fun j w hj hpc => ?_ }
  · refine (hread.stale fun hhold => ?_).trans h.neverStale
    obtain ⟨p, hp, hpheld⟩ := h.held i r hl hhold
    exact ⟨p, hp, hpheld.live hs⟩
  · rcases lookup_set_cases hl hj with ⟨rfl, hown⟩ | ⟨hij, hold⟩
    · cases hown
      exact hread.readers.2 hin (h.registered j r hl)
    · exact hread.readers.1 j hij (h.registered j s hold hin)
  · rcases lookup_set_cases hl hj with ⟨rfl, hown⟩ | ⟨hij, hold⟩
    · cases hown
      rcases hread.holding hhold with ⟨hbefore, hsame⟩ | ⟨p, hp, hdata⟩
      · obtain ⟨p, hp, hpheld⟩ := h.held j r hl hbefore
        exact ⟨p, hsame.trans hp, hheld hpheld⟩
      · exact ⟨p, hp, Or.inl (hread.myData.trans hdata)⟩
    · obtain ⟨p, hp, hpheld⟩ := h.held j s hold hhold
      exact ⟨p, hp, hheld hpheld⟩
  · rcases lookup_set_cases hl hj with ⟨-, hown⟩ | ⟨-, hold⟩
    · cases hown
    · exact h.stored_step hs hl hst hold hpc

/-- A writer's accesses go through its new version. -/
theorem WriteStep.stale {g g' : Rcu} {w w' : WriteCall}
    (h : WriteStep g w g' w')
    (hlive : ∀ p, w.pc = .store → w.new = some p → g.slab.live p = true) :
    g'.slab.stale = g.slab.stale := by
  cases h with
  | store p hpc hnew =>
      show ((g.slab.touch p).put p w.arg).stale = g.slab.stale
      rw [Slab.touch_of_live (hlive p hpc hnew)]
      rfl
  | _ => rfl

theorem WriteStep.readers {g g' : Rcu} {w w' : WriteCall}
    (h : WriteStep g w g' w') : g'.readers = g.readers := by
  cases h <;> rfl

/-- The store leaves the argument in the new version. -/
theorem WriteStep.stored {g g' : Rcu} {w w' : WriteCall}
    (h : WriteStep g w g' w')
    (hlive : ∀ p, w.pc = .store → w.new = some p → g.slab.live p = true)
    (hkeep : w.pc = .loadOld ∨ w.pc = .assign →
      w.new.bind g'.slab.get = some w.arg)
    (hpc' : w'.pc = .loadOld ∨ w'.pc = .assign) :
    w'.new.bind g'.slab.get = some w'.arg := by
  cases h with
  | store p hpc hnew =>
      have hp := Slab.lt_fresh_of_live (hlive p hpc hnew)
      show w.new.bind ((g.slab.touch p).put p w.arg).get = some w.arg
      rw [hnew, Option.bind_some]
      exact Slab.get_put_self _ _ (by simpa using hp)
  | loadOld hpc => exact hkeep (Or.inl hpc)
  | _ => rcases hpc' with h | h <;> cases h

theorem Readers.write {c : Conf} (h : Readers c) (hs : SoleOwners c)
    {i : Nat} {g : Rcu} {w w' : WriteCall} {mem : Option (BitVec 64)}
    (hl : c.calls[i]? = some (.write w))
    (hst : simpleRcuStep c.shared i (.write w) mem = some (g, .write w'))
    (hwrite : WriteStep c.shared w g w') (hwait : Waits c.shared w) :
    Readers ⟨g, c.calls.set i (.write w')⟩ := by
  have hlive : ∀ p, w.pc = .store → w.new = some p →
      c.shared.slab.live p = true := by
    intro p hpc hnew
    have hone : owns p (.write w) = 1 := by simp [owns, hpc, hnew]
    have hle := le_total (owns p) hl
    exact hs.live_of_owned (by omega)
  have hreader : ∀ (j : Nat) (r : ReadCall),
      (c.calls.set i (.write w'))[j]? = some (.read r) →
        c.calls[j]? = some (.read r) := by
    intro j r hj
    rcases lookup_set_cases hl hj with ⟨-, hown⟩ | ⟨-, hold⟩
    · cases hown
    · exact hold
  refine
    { neverStale := (hwrite.stale hlive).trans h.neverStale
      registered := fun j r hj hin => ?_
      held := fun j r hj hhold => ?_
      stored := fun j u hj hpc => ?_ }
  · show j ∈ g.readers
    rw [hwrite.readers]
    exact h.registered j r (hreader j r hj) hin
  · obtain ⟨p, hp, hpheld⟩ := h.held j r (hreader j r hj) hhold
    have hin : r.inside := by
      rcases hhold with hpc | hpc <;> simp [ReadCall.inside, hpc]
    have hreg := h.registered j r (hreader j r hj) hin
    exact ⟨p, hp, hpheld.write hs hreg hl hwrite hwait⟩
  · rcases lookup_set_cases hl hj with ⟨-, hown⟩ | ⟨-, hold⟩
    · cases hown
      exact hwrite.stored hlive
        (fun hbefore => h.stored_step hs hl hst hl hbefore) hpc
    · exact h.stored_step hs hl hst hold hpc

theorem Readers.step {c d : Conf} {mv : Move} (h : Readers c)
    (hs : SoleOwners c) (hst : SimpleRcu.step c mv = some d) : Readers d := by
  rcases step_cases hst with
    ⟨k, -, hd⟩ | ⟨i, mem, l, g, l', -, hl, hbody, hd⟩
  · rw [hd]
    exact h.issue k
  · rw [hd]
    rcases simpleRcuStep_inv hbody with
      ⟨r, r', hr, hr', hread⟩ | ⟨w, w', hw, hw', hwrite, hwait⟩
    · subst hr hr'
      exact h.read hs hl hbody hread
    · subst hw hw'
      exact h.write hs hl hbody hwrite hwait

end EmbeddedSystem.Labs.SimpleRcu
