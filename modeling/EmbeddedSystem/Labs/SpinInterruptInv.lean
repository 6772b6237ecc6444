import EmbeddedSystem.Labs.SpinInterrupt

/-!
# The invariant of `spin_interrupt.c`

The nodes are allocated one after another, each by one interrupt, so the
`p`-th interrupt has node `p` and the list is `0, 1, …` up to the interrupts
that were handled.  `Inv` says so, who holds the lock, how far each release
has come with its printing, and how far `spin_interrupt_exit` has come with
its loop.  The handler and the calls keep it: a release holds the lock while
it walks the list, so no handler appends in the meantime.
-/

set_option autoImplicit false

namespace EmbeddedSystem.Labs.SpinInterrupt

open EmbeddedSystem.Verified
open EmbeddedSystem.Verified.CallPool
open EmbeddedSystem.Verified.Transition
open EmbeddedSystem.Verified.ListWalk (visit behind)

/-! ## How far everybody is -/

/-- 1 until the handler has its node. -/
def IsrPc.owing : IsrPc → Nat
  | .kmalloc => 1
  | _ => 0

/-- 1 until the handler has stored the time. -/
def IsrPc.unstamped : IsrPc → Nat
  | .kmalloc => 1
  | .lock _ => 1
  | .stamp _ => 1
  | _ => 0

/-- 1 until the handler has appended its node. -/
def IsrPc.pending : IsrPc → Nat
  | .kmalloc => 1
  | .lock _ => 1
  | .stamp _ => 1
  | .add _ => 1
  | _ => 0

/-- The node in the hands of the handler. -/
def IsrPc.node : IsrPc → Option Nat
  | .lock p => some p
  | .stamp p => some p
  | .add p => some p
  | _ => none

def IsrPc.locked : IsrPc → Bool
  | .stamp _ => true
  | .add _ => true
  | .unlock => true
  | _ => false

def CallPc.locked : CallPc → Bool
  | .first => true
  | .print _ _ _ => true
  | .next _ _ => true
  | .unlock => true
  | _ => false

/-- `free_irq` has returned. -/
def Stage.irqFreed : Stage → Bool
  | .freeGpio => true
  | .sweep _ => true
  | .returned => true
  | _ => false

/-- The loop of `spin_interrupt_exit` has begun. -/
def Stage.sweeping : Stage → Bool
  | .sweep _ => true
  | .returned => true
  | _ => false

/-- How many interrupts have appended their nodes. -/
def Module.handled (m : Module) : Nat := m.arrived - m.isr.pending

/-- And how many have stored the time. -/
def Module.stamped (m : Module) : Nat := m.arrived - m.isr.unstamped

/-- The times in the list. -/
def Module.times (m : Module) : List Timespec :=
  m.timeList.map (timeAt m.nodes)

/-! ## The invariant -/

/-- Times with their places in the list, as a release prints them. -/
def numbered (ts : List Timespec) : List (Nat × Int) :=
  ts.mapIdx fun i t => (i, t.tvSec)

/-- A release that is over has printed all times of its locked section, or
that the list is empty, and then it was. -/
def Reported (c : Call) : Prop :=
  if c.saidEmpty then c.printed = [] ∧ c.checked = []
  else c.printed = numbered c.seen

/-- What a call has done so far. -/
def CallOk (m : Module) (c : Call) : Prop :=
  match c.pc with
  | .enable => True
  | .opened => True
  | .testEmpty => c.saidEmpty = false ∧ c.printed = []
  | .lockList => c.saidEmpty = false ∧ c.printed = []
  | .first => c.saidEmpty = false ∧ c.printed = [] ∧ c.seen = m.times
  | .print pos q index =>
      c.saidEmpty = false ∧ c.printed = (numbered c.seen).take index ∧
        c.seen = m.times ∧ index < m.handled ∧ pos = index ∧
        q = behind 0 m.handled (index + 1)
  | .next q index =>
      c.saidEmpty = false ∧ c.printed = (numbered c.seen).take index ∧
        c.seen = m.times ∧ index ≤ m.handled ∧ q = behind 0 m.handled index
  | .unlock =>
      c.saidEmpty = false ∧ c.printed = numbered c.seen ∧ c.seen = m.times
  | .printEmpty => c.printed = [] ∧ c.checked = []
  | .disable => Reported c
  | .synchronize => Reported c
  | .released => Reported c

/-- The nodes from `first` on are left. -/
def Rest (m : Module) (first : Nat) : Prop :=
  first ≤ m.nodes.fresh ∧
    ∀ p, m.nodes.live p = true ↔ first ≤ p ∧ p < m.nodes.fresh

/-- How far the loop of `spin_interrupt_exit` is. -/
def Swept (m : Module) : SweepPc → Prop
  | .first => Rest m 0 ∧ m.timeList = List.range' 0 m.nodes.fresh
  | .del pos q =>
      Rest m pos ∧ pos < m.nodes.fresh ∧
        m.timeList = List.range' pos (m.nodes.fresh - pos) ∧
        q = behind pos (m.nodes.fresh - pos) 1
  | .free pos q =>
      Rest m pos ∧ pos < m.nodes.fresh ∧
        m.timeList = List.range' (pos + 1) (m.nodes.fresh - (pos + 1)) ∧
        q = behind (pos + 1) (m.nodes.fresh - (pos + 1)) 0
  | .next q =>
      ∃ first, Rest m first ∧
        m.timeList = List.range' first (m.nodes.fresh - first) ∧
        q = behind first (m.nodes.fresh - first) 0

/-- The time of the node at `p`, in nanoseconds. -/
def Module.time (m : Module) (p : Nat) : Int := (timeAt m.nodes p).toNs

structure Inv (m : Module) : Prop where
  sound : m.nodes.Sound
  fresh : m.nodes.fresh + m.isr.owing = m.arrived
  node : ∀ p, m.isr.node = some p → p + 1 = m.nodes.fresh
  stamps : m.stamps = (List.range m.stamped).map (timeAt m.nodes)
  sorted : ∀ p q, p ≤ q → q < m.stamped →
    m.time p ≤ m.time q ∧ m.time q ≤ m.now
  listed : m.stage.sweeping = false →
    m.timeList = List.range' 0 m.handled ∧ Rest m 0
  swept : ∀ s, m.stage = .sweep s → Swept m s
  gone : m.stage = .returned → m.timeList = [] ∧ Rest m m.nodes.fresh
  isrLock : m.isr.locked = true → m.spinlock = some .isr
  callLock : ∀ (i : Nat) (c : Call), m.calls[i]? = some c →
    c.pc.locked = true → m.spinlock = some (.call i)
  call : ∀ (i : Nat) (c : Call), m.calls[i]? = some c → CallOk m c
  closed : m.stage ≠ .loaded → ∀ (i : Nat) (c : Call),
    m.calls[i]? = some c → c.pc.ended = true
  torn : m.stage.irqFreed = true → m.isr = .idle ∧ m.line.handled = false

theorem init_inv (gpioRet ret now : Int) :
    Inv (spinInterruptInit gpioRet ret now) := by
  have hstage : (spinInterruptInit gpioRet ret now).stage = .loaded ∨
      (spinInterruptInit gpioRet ret now).stage = .disable := by
    by_cases hret : ret ≠ 0
    · exact Or.inl (if_pos hret)
    · exact Or.inr (if_neg hret)
  refine
    { sound := Slab.sound_empty
      fresh := rfl
      node := fun p h => by cases h
      stamps := rfl
      sorted := fun p q hpq hq => absurd hq (Nat.not_lt_zero q)
      listed := fun _ => ⟨rfl, Nat.le_refl 0, fun p => ?_⟩
      swept := fun s h => ?_
      gone := fun h => ?_
      isrLock := fun h => by cases h
      callLock := fun i c h => absurd h (by simp [spinInterruptInit])
      call := fun i c h => absurd h (by simp [spinInterruptInit])
      closed := fun _ i c h => absurd h (by simp [spinInterruptInit])
      torn := fun h => ?_ }
  · simp [spinInterruptInit, Slab.live, Slab.empty, Slab.fresh]
  · rcases hstage with hs | hs <;> rw [hs] at h <;> cases h
  · rcases hstage with hs | hs <;> rw [hs] at h <;> cases h
  · rcases hstage with hs | hs <;> rw [hs] at h <;> cases h

/-! ## Frames -/

/-- A call that is not in its locked section does not depend on the list. -/
theorem CallOk.frame {m n : Module} {c : Call} (h : CallOk m c)
    (hsame : c.pc.locked = true → n.times = m.times ∧ n.handled = m.handled) :
    CallOk n c := by
  unfold CallOk at h ⊢
  cases hpc : c.pc with
  | first =>
      rw [hpc] at h hsame
      obtain ⟨htimes, -⟩ := hsame rfl
      dsimp only at h ⊢
      rw [htimes]
      exact h
  | print pos q index =>
      rw [hpc] at h hsame
      obtain ⟨htimes, hhandled⟩ := hsame rfl
      dsimp only at h ⊢
      rw [htimes, hhandled]
      exact h
  | next q index =>
      rw [hpc] at h hsame
      obtain ⟨htimes, hhandled⟩ := hsame rfl
      dsimp only at h ⊢
      rw [htimes, hhandled]
      exact h
  | unlock =>
      rw [hpc] at h hsame
      obtain ⟨htimes, -⟩ := hsame rfl
      dsimp only at h ⊢
      rw [htimes]
      exact h
  | _ =>
      rw [hpc] at h
      exact h

/-- What a release prints is the list as long as it holds the lock. -/
theorem CallOk.seen_eq {m : Module} {c : Call} (h : CallOk m c)
    (hl : c.pc.locked = true) : c.seen = m.times := by
  unfold CallOk at h
  cases hpc : c.pc with
  | first =>
      rw [hpc] at h
      exact h.2.2
  | print pos q index =>
      rw [hpc] at h
      exact h.2.2.1
  | next q index =>
      rw [hpc] at h
      exact h.2.2.1
  | unlock =>
      rw [hpc] at h
      exact h.2.2
  | _ =>
      rw [hpc] at hl
      cases hl

theorem CallPc.not_locked {pc : CallPc} (h : pc.ended = true) :
    pc.locked = false := by
  cases pc with
  | opened => rfl
  | released => rfl
  | _ => cases h

/-- A handler that is running has come before `free_irq`. -/
theorem Inv.early {m : Module} (h : Inv m) (hisr : m.isr ≠ .idle) :
    m.stage.irqFreed = false := by
  cases hf : m.stage.irqFreed with
  | false => rfl
  | true => exact absurd (h.torn hf).1 hisr

theorem Stage.not_sweeping {pc : Stage} (h : pc.irqFreed = false) :
    pc.sweeping = false := by
  cases pc with
  | sweep s => cases h
  | returned => cases h
  | _ => rfl

/-- A call that has not returned has come before the exit function. -/
theorem Inv.loaded {m : Module} (h : Inv m) {i : Nat} {c : Call}
    (hc : m.calls[i]? = some c) (hpc : c.pc.ended = false) :
    m.stage = .loaded := by
  by_cases hl : m.stage = .loaded
  · exact hl
  · have hend := h.closed hl i c hc
    rw [hpc] at hend
    cases hend

theorem timeAt_kmalloc {nodes : Slab Timespec} {p : Nat} (junk : Timespec)
    (h : p < nodes.fresh) :
    timeAt (nodes.kmalloc junk) p = timeAt nodes p := by
  unfold timeAt
  rw [Slab.get_kmalloc_of_lt nodes junk h]

@[simp] theorem timeAt_kfree (nodes : Slab Timespec) (p q : Nat) :
    timeAt (nodes.kfree p) q = timeAt nodes q := by
  unfold timeAt
  rw [Slab.get_kfree]

theorem timeAt_update_ne {nodes : Slab Timespec} {p q : Nat}
    (f : Timespec → Timespec) (h : p ≠ q) :
    timeAt (nodes.update p f) q = timeAt nodes q := by
  unfold timeAt
  rw [Slab.get_update, if_neg h]

theorem timeAt_update_self {nodes : Slab Timespec} {p : Nat} (t : Timespec)
    (h : p < nodes.fresh) : timeAt (nodes.update p fun _ => t) p = t := by
  unfold timeAt
  rw [Slab.get_update, if_pos rfl]
  cases hv : nodes.get p with
  | none =>
      have hle := (Slab.get_eq_none_iff nodes p).mp hv
      omega
  | some v => rfl

/-! ## The handler -/

/-- A step of the handler: `spin_interrupt_exit` has not got to its loop. -/
theorem Inv.handler {m n : Module} (h : Inv m) (hisr : m.isr ≠ .idle)
    (hcalls : n.calls = m.calls) (hexit : n.stage = m.stage)
    (sound : n.nodes.Sound) (fresh : n.nodes.fresh + n.isr.owing = n.arrived)
    (node : ∀ p, n.isr.node = some p → p + 1 = n.nodes.fresh)
    (stamps : n.stamps = (List.range n.stamped).map (timeAt n.nodes))
    (sorted : ∀ p q, p ≤ q → q < n.stamped →
      n.time p ≤ n.time q ∧ n.time q ≤ n.now)
    (listed : n.timeList = List.range' 0 n.handled ∧ Rest n 0)
    (isrLock : n.isr.locked = true → n.spinlock = some .isr)
    (callLock : ∀ (i : Nat) (c : Call), m.calls[i]? = some c →
      c.pc.locked = true → n.spinlock = some (.call i) ∧ n.times = m.times ∧
        n.handled = m.handled) :
    Inv n := by
  have hearly := h.early hisr
  refine
    { sound := sound
      fresh := fresh
      node := node
      stamps := stamps
      sorted := sorted
      listed := fun _ => listed
      swept := fun s hs => ?_
      gone := fun hret => ?_
      isrLock := isrLock
      callLock := fun i c hc hl => ?_
      call := fun i c hc => ?_
      closed := ?_
      torn := fun hfreed => ?_ }
  · rw [← hexit, hs] at hearly
    cases hearly
  · rw [← hexit, hret] at hearly
    cases hearly
  · rw [hcalls] at hc
    exact (callLock i c hc hl).1
  · rw [hcalls] at hc
    exact (h.call i c hc).frame fun hl => (callLock i c hc hl).2
  · rw [hcalls, hexit]
    exact h.closed
  · rw [hexit, hearly] at hfreed
    cases hfreed

/-- A step that leaves the nodes alone. -/
theorem Inv.sameNodes {m : Module} (h : Inv m) (hisr : m.isr ≠ .idle)
    {isr : IsrPc} {timeList : List Nat} {lock : Option Holder}
    (howing : isr.owing = m.isr.owing)
    (hunstamped : isr.unstamped = m.isr.unstamped)
    (hnode : ∀ p, isr.node = some p → m.isr.node = some p)
    (hlist : timeList = List.range' 0 (m.arrived - isr.pending))
    (isrLock : isr.locked = true → lock = some .isr)
    (callLock : ∀ (i : Nat) (c : Call), m.calls[i]? = some c →
      c.pc.locked = true → lock = some (.call i) ∧ timeList = m.timeList ∧
        isr.pending = m.isr.pending) :
    Inv { m with spinlock := lock, timeList := timeList, isr := isr } := by
  obtain ⟨-, hrest⟩ := h.listed (Stage.not_sweeping (h.early hisr))
  have hstamped : m.arrived - isr.unstamped = m.stamped := by
    rw [hunstamped]
    rfl
  refine h.handler hisr rfl rfl h.sound ?_ (fun p hp => ?_) ?_ ?_
    ⟨hlist, hrest⟩ isrLock (fun i c hc hl => ?_)
  · show m.nodes.fresh + isr.owing = m.arrived
    rw [howing]
    exact h.fresh
  · exact h.node p (hnode p hp)
  · show m.stamps = (List.range (m.arrived - isr.unstamped)).map
      (timeAt m.nodes)
    rw [hstamped]
    exact h.stamps
  · intro p q hpq hq
    have hq' : q < m.arrived - isr.unstamped := hq
    rw [hstamped] at hq'
    exact h.sorted p q hpq hq'
  · obtain ⟨hheld, hsame, hpending⟩ := callLock i c hc hl
    refine ⟨hheld, congrArg (List.map (timeAt m.nodes)) hsame, ?_⟩
    exact congrArg (m.arrived - ·) hpending

/-- Only one of them holds the lock. -/
theorem Inv.not_both {m : Module} (h : Inv m) (hlock : m.isr.locked = true)
    {i : Nat} {c : Call} (hc : m.calls[i]? = some c) :
    c.pc.locked = false := by
  cases hl : c.pc.locked with
  | false => rfl
  | true =>
      have hheld := h.callLock i c hc hl
      rw [h.isrLock hlock] at hheld
      cases hheld

/-- `kmalloc` -/
theorem Inv.allocate {m : Module} (h : Inv m) (hpc : m.isr = .kmalloc)
    (junk : Timespec) :
    Inv { m with
      nodes := m.nodes.kmalloc junk
      isr := .lock m.nodes.fresh } := by
  have hisr : m.isr ≠ .idle := by rw [hpc]; decide
  obtain ⟨hlist, hrest⟩ := h.listed (Stage.not_sweeping (h.early hisr))
  have hfresh := h.fresh
  rw [hpc] at hfresh
  have hfresh' : m.nodes.fresh + 1 = m.arrived := hfresh
  have hstamped : m.stamped = m.nodes.fresh := by
    unfold Module.stamped
    rw [hpc, ← hfresh']
    rfl
  have hhandled : m.handled = m.nodes.fresh := by
    unfold Module.handled
    rw [hpc, ← hfresh']
    rfl
  have hhandled' : m.arrived - 1 = m.handled := by omega
  refine h.handler hisr rfl rfl (h.sound.kmalloc junk) ?_ ?_ ?_ ?_ ?_
    (fun hl => by cases hl) ?_
  · show (m.nodes.kmalloc junk).fresh + 0 = m.arrived
    rw [Slab.fresh_kmalloc]
    exact hfresh'
  · intro p hp
    cases hp
    exact (Slab.fresh_kmalloc m.nodes junk).symm
  · show m.stamps = (List.range (m.arrived - 1)).map
      (timeAt (m.nodes.kmalloc junk))
    have hstamped' : m.arrived - 1 = m.stamped := by omega
    rw [hstamped', h.stamps]
    apply List.map_congr_left
    intro p hp
    rw [List.mem_range, hstamped] at hp
    exact (timeAt_kmalloc junk hp).symm
  · intro p q hpq hq
    have hq' : q < m.nodes.fresh := by
      have hlt : q < m.arrived - 1 := hq
      omega
    have hp' : p < m.nodes.fresh := by omega
    have hsorted := h.sorted p q hpq (by omega)
    unfold Module.time at hsorted ⊢
    dsimp only at hsorted ⊢
    rw [timeAt_kmalloc junk hp', timeAt_kmalloc junk hq']
    exact hsorted
  · refine ⟨?_, Nat.zero_le _, fun p => ?_⟩
    · show m.timeList = List.range' 0 (m.arrived - 1)
      rw [hhandled']
      exact hlist
    · show (m.nodes.kmalloc junk).live p = true ↔
        0 ≤ p ∧ p < (m.nodes.kmalloc junk).fresh
      rw [Slab.live_kmalloc, Slab.fresh_kmalloc, Bool.or_eq_true,
        hrest.2 p, beq_iff_eq]
      omega
  · intro i c hc hl
    refine ⟨h.callLock i c hc hl, ?_, hhandled'⟩
    apply List.map_congr_left
    intro p hp
    apply timeAt_kmalloc
    rw [hlist, List.mem_range'_1] at hp
    omega

/-- `getnstimeofday` -/
theorem Inv.readClock {m : Module} {p : Nat} (h : Inv m)
    (hpc : m.isr = .stamp p) :
    Inv { m with
      nodes := m.nodes.update p fun _ => getnstimeofday m.now
      stamps := m.stamps ++ [getnstimeofday m.now]
      isr := .add p } := by
  have hisr : m.isr ≠ .idle := by rw [hpc]; exact fun h => by cases h
  obtain ⟨hlist, hrest⟩ := h.listed (Stage.not_sweeping (h.early hisr))
  have hlock : m.isr.locked = true := by rw [hpc]; rfl
  have hp : p + 1 = m.nodes.fresh := h.node p (by rw [hpc]; rfl)
  have hlive : m.nodes.live p = true :=
    (hrest.2 p).mpr ⟨Nat.zero_le p, by omega⟩
  have hfresh := h.fresh
  have hstamps := h.stamps
  have hsorted := h.sorted
  unfold Module.stamped at hstamps hsorted
  unfold Module.handled at hlist
  rw [hpc] at hfresh hstamps hsorted hlist
  have hfresh' : m.nodes.fresh + 0 = m.arrived := hfresh
  have hunstamped : m.arrived - (IsrPc.stamp p).unstamped = p := by
    show m.arrived - 1 = p
    omega
  refine h.handler hisr rfl rfl (h.sound.update hlive _) ?_ ?_ ?_ ?_ ?_
    (fun _ => h.isrLock hlock) ?_
  · show (m.nodes.update p _).fresh + 0 = m.arrived
    rw [Slab.fresh_update]
    exact hfresh'
  · intro r hr
    cases hr
    exact hp.trans (Slab.fresh_update _ _ _).symm
  · show m.stamps ++ [getnstimeofday m.now] =
      (List.range (m.arrived - 0)).map
        (timeAt (m.nodes.update p fun _ => getnstimeofday m.now))
    have hnext : m.arrived - 0 = p + 1 := by omega
    rw [hnext, List.range_succ, List.map_append, List.map_singleton,
      timeAt_update_self _ (by omega), hstamps, hunstamped]
    congr 1
    apply List.map_congr_left
    intro r hr
    rw [List.mem_range] at hr
    exact (timeAt_update_ne _ (by omega)).symm
  · intro r q hrq hq
    have hq' : q < m.arrived - 0 := hq
    have hother : ∀ x, x < p → (timeAt (m.nodes.update p fun _ =>
        getnstimeofday m.now) x).toNs = m.time x := by
      intro x hx
      rw [timeAt_update_ne _ (by omega)]
      rfl
    have hself : (timeAt (m.nodes.update p fun _ =>
        getnstimeofday m.now) p).toNs = m.now := by
      rw [timeAt_update_self _ (by omega)]
      exact toNs_getnstimeofday m.now
    unfold Module.time
    dsimp only
    by_cases hqp : q = p
    · rw [hqp, hself]
      by_cases hrp : r = p
      · rw [hrp, hself]
        exact ⟨Int.le_refl _, Int.le_refl _⟩
      · rw [hother r (by omega)]
        have hr := hsorted r r (Nat.le_refl r) (by omega)
        exact ⟨hr.2, Int.le_refl _⟩
    · rw [hother r (by omega), hother q (by omega)]
      exact hsorted r q hrq (by omega)
  · refine ⟨hlist, Nat.zero_le _, fun r => ?_⟩
    show (m.nodes.update p _).live r = true ↔
      0 ≤ r ∧ r < (m.nodes.update p _).fresh
    rw [Slab.live_update, Slab.fresh_update]
    exact hrest.2 r
  · intro i c hc hl
    rw [h.not_both hlock hc] at hl
    cases hl

/-- `list_add_tail` -/
theorem Inv.addTail {m : Module} {p : Nat} (h : Inv m)
    (hpc : m.isr = .add p) :
    Inv { m with
      nodes := m.nodes.touch p
      timeList := m.timeList ++ [p]
      isr := .unlock } := by
  have hisr : m.isr ≠ .idle := by rw [hpc]; exact fun h => by cases h
  obtain ⟨hlist, hrest⟩ := h.listed (Stage.not_sweeping (h.early hisr))
  have hlock : m.isr.locked = true := by rw [hpc]; rfl
  have hp : p + 1 = m.nodes.fresh := h.node p (by rw [hpc]; rfl)
  have hlive : m.nodes.live p = true :=
    (hrest.2 p).mpr ⟨Nat.zero_le p, by omega⟩
  have hfresh := h.fresh
  unfold Module.handled at hlist
  rw [hpc] at hfresh hlist
  have hfresh' : m.nodes.fresh + 0 = m.arrived := hfresh
  rw [Slab.touch_of_live hlive]
  refine h.sameNodes hisr (by rw [hpc]; rfl) (by rw [hpc]; rfl)
    (fun r hr => by cases hr) ?_ (fun _ => h.isrLock hlock) ?_
  · show m.timeList ++ [p] = List.range' 0 m.arrived
    have hlen : m.arrived - (IsrPc.add p).pending = p := by
      show m.arrived - 1 = p
      omega
    have hnext : m.arrived = p + 1 := by omega
    rw [hlist, hlen, hnext, List.range'_concat]
    simp
  · intro i c hc hl
    rw [h.not_both hlock hc] at hl
    cases hl

theorem Inv.isr {m n : Module} {junk : Timespec} (h : Inv m)
    (hst : spinInterruptIsr m junk m.isr = some n) : Inv n := by
  have hrange : m.isr ≠ .idle → m.timeList = List.range' 0 m.handled :=
    fun hisr => (h.listed (Stage.not_sweeping (h.early hisr))).1
  cases hpc : m.isr with
  | idle =>
      rw [hpc] at hst
      cases hst
  | kmalloc =>
      rw [hpc] at hst
      cases hst
      exact h.allocate hpc junk
  | lock p =>
      have hisr : m.isr ≠ .idle := by rw [hpc]; exact fun h => by cases h
      have hlist := hrange hisr
      unfold Module.handled at hlist
      rw [hpc] at hlist
      rw [hpc, spinInterruptIsr] at hst
      split at hst
      case isFalse => cases hst
      case isTrue hfree =>
        cases hst
        refine h.sameNodes hisr (by rw [hpc]; rfl) (by rw [hpc]; rfl)
          (fun r hr => by rw [hpc]; exact hr) hlist (fun _ => rfl) ?_
        intro i c hc hl
        have hheld := h.callLock i c hc hl
        rw [hfree] at hheld
        cases hheld
  | stamp p =>
      rw [hpc] at hst
      cases hst
      exact h.readClock hpc
  | add p =>
      rw [hpc] at hst
      cases hst
      exact h.addTail hpc
  | unlock =>
      have hisr : m.isr ≠ .idle := by rw [hpc]; decide
      have hlist := hrange hisr
      have hlock : m.isr.locked = true := by rw [hpc]; rfl
      unfold Module.handled at hlist
      rw [hpc] at hst hlist
      cases hst
      refine h.sameNodes hisr (by rw [hpc]; rfl) (by rw [hpc]; rfl)
        (fun r hr => by cases hr) hlist (fun hl => by cases hl) ?_
      intro i c hc hl
      rw [h.not_both hlock hc] at hl
      cases hl
  | leave =>
      have hisr : m.isr ≠ .idle := by rw [hpc]; decide
      have hlist := hrange hisr
      unfold Module.handled at hlist
      rw [hpc] at hst hlist
      cases hst
      refine h.sameNodes hisr (by rw [hpc]; rfl) (by rw [hpc]; rfl)
        (fun r hr => by cases hr) hlist (fun hl => by cases hl) ?_
      intro i c hc hl
      exact ⟨h.callLock i c hc hl, rfl, by rw [hpc]; rfl⟩

/-! ## The calls -/

theorem Inv.handled_le {m : Module} (h : Inv m) :
    m.handled ≤ m.nodes.fresh := by
  have hle : m.isr.owing ≤ m.isr.pending := by
    cases m.isr with
    | kmalloc => exact Nat.le_refl 1
    | _ => exact Nat.zero_le _
  have hfresh := h.fresh
  unfold Module.handled
  omega

theorem times_getElem? {m : Module} {i : Nat}
    (hlist : m.timeList = List.range' 0 m.handled) (hi : i < m.handled) :
    m.times[i]? = some (timeAt m.nodes i) := by
  unfold Module.times
  rw [hlist, List.getElem?_map, List.getElem?_range' hi]
  simp

theorem length_times {m : Module}
    (hlist : m.timeList = List.range' 0 m.handled) :
    m.times.length = m.handled := by
  unfold Module.times
  rw [List.length_map, hlist, List.length_range']

/-- One more line. -/
theorem numbered_take_succ {ts : List Timespec} {i : Nat} {t : Timespec}
    (h : ts[i]? = some t) :
    (numbered ts).take (i + 1) = (numbered ts).take i ++ [(i, t.tvSec)] := by
  rw [List.take_add_one]
  congr 1
  unfold numbered
  rw [List.getElem?_mapIdx, h]
  rfl

theorem numbered_take_length (ts : List Timespec) :
    (numbered ts).take ts.length = numbered ts := by
  apply List.take_of_length_le
  unfold numbered
  exact Nat.le_of_eq List.length_mapIdx

/-- A step of a call that leaves the nodes alone. -/
theorem Inv.setCall {m : Module} (h : Inv m) {i : Nat} {c c' : Call}
    (hc : m.calls[i]? = some c) (hpc : c.pc.ended = false) (line : IrqLine)
    (files : Nat) (lock : Option Holder)
    (isrLock : m.isr.locked = true → lock = some .isr)
    (other : ∀ (j : Nat) (d : Call), i ≠ j → m.calls[j]? = some d →
      d.pc.locked = true → lock = some (.call j))
    (own : c'.pc.locked = true → lock = some (.call i))
    (ok : CallOk m c') :
    Inv { m with
      spinlock := lock
      line := line
      files := files
      calls := m.calls.set i c' } := by
  have hloaded := h.loaded hc hpc
  refine
    { sound := h.sound
      fresh := h.fresh
      node := h.node
      stamps := h.stamps
      sorted := h.sorted
      listed := h.listed
      swept := h.swept
      gone := h.gone
      isrLock := isrLock
      callLock := fun j d hd hl => ?_
      call := fun j d hd => ?_
      closed := fun hne => absurd hloaded hne
      torn := fun hfreed => ?_ }
  · rcases lookup_set_cases hc hd with ⟨rfl, rfl⟩ | ⟨hij, hold⟩
    · exact own hl
    · exact other j d hij hold hl
  · rcases lookup_set_cases hc hd with ⟨rfl, rfl⟩ | ⟨hij, hold⟩
    · exact ok
    · exact h.call j d hold
  · rw [show m.stage = .loaded from hloaded] at hfreed
    cases hfreed

/-- A step of a call that leaves the lock alone. -/
theorem Inv.stay {m : Module} (h : Inv m) {i : Nat} {c c' : Call}
    (hc : m.calls[i]? = some c) (hpc : c.pc.ended = false) (line : IrqLine)
    (files : Nat) (hl : c'.pc.locked = true → c.pc.locked = true)
    (ok : CallOk m c') :
    Inv { m with
      line := line
      files := files
      calls := m.calls.set i c' } :=
  h.setCall hc hpc line files m.spinlock h.isrLock
    (fun j d _ hd hdl => h.callLock j d hd hdl)
    (fun hl' => h.callLock i c hc (hl hl')) ok

/-- The loop of a release comes to its next node, or to its end. -/
theorem Inv.loop {m : Module} (h : Inv m) {i index : Nat} {c : Call}
    {v : Option (Nat × Option Nat)} (hc : m.calls[i]? = some c)
    (hpc : c.pc.ended = false) (hlocked : c.pc.locked = true)
    (hsaid : c.saidEmpty = false)
    (hprinted : c.printed = (numbered c.seen).take index)
    (hseen : c.seen = m.times) (hindex : index ≤ m.handled)
    (hv : visit m.timeList (behind 0 m.handled index) = some v) :
    Inv ({ m with nodes := readLink m.nodes v }.setCall i
      (c.loop index v)) := by
  have hloaded := h.loaded hc hpc
  obtain ⟨hlist, hrest⟩ := h.listed (by rw [hloaded]; rfl)
  rw [hlist, ListWalk.visit_range', Option.some.injEq] at hv
  by_cases hlt : index < m.handled
  · rw [if_pos hlt, Nat.zero_add] at hv
    subst hv
    have hlive : m.nodes.live index = true := by
      have hle := h.handled_le
      exact (hrest.2 index).mpr ⟨Nat.zero_le _, by omega⟩
    have hnodes : readLink m.nodes
        (some (index, behind 0 m.handled (index + 1))) = m.nodes :=
      Slab.touch_of_live hlive
    rw [hnodes]
    exact h.stay hc hpc m.line m.files (fun _ => hlocked)
      ⟨hsaid, hprinted, hseen, hlt, rfl, rfl⟩
  · rw [if_neg hlt] at hv
    subst hv
    have hall : index = c.seen.length := by
      rw [hseen, length_times hlist]
      omega
    rw [hall, numbered_take_length] at hprinted
    exact h.stay hc hpc m.line m.files (fun _ => hlocked)
      ⟨hsaid, hprinted, hseen⟩

/-- A call that goes on has not returned. -/
theorem not_ended_of_callStep {m n : Module} {i : Nat} {c : Call}
    (hst : callStep m i c = some n) : c.pc.ended = false := by
  unfold callStep at hst
  cases hpc : c.pc with
  | opened =>
      rw [hpc] at hst
      cases hst
  | released =>
      rw [hpc] at hst
      cases hst
  | _ => rfl

theorem Inv.callStep {m n : Module} {i : Nat} {c : Call} (h : Inv m)
    (hc : m.calls[i]? = some c)
    (hst : SpinInterrupt.callStep m i c = some n) : Inv n := by
  have hend := not_ended_of_callStep hst
  have hok := h.call i c hc
  unfold CallOk at hok
  unfold SpinInterrupt.callStep at hst
  cases hpc : c.pc with
  | enable =>
      rw [hpc] at hst
      cases hst
      exact h.stay hc hend _ _ (fun hl => by cases hl) trivial
  | opened =>
      rw [hpc] at hst
      cases hst
  | testEmpty =>
      rw [hpc] at hst hok
      cases hst
      by_cases hempty : m.timeList = []
      · rw [if_pos hempty]
        exact h.stay hc hend m.line m.files (fun hl => by cases hl)
          ⟨hok.2, hempty⟩
      · rw [if_neg hempty]
        exact h.stay hc hend m.line m.files (fun hl => by cases hl) hok
  | lockList =>
      rw [hpc] at hst hok
      dsimp only at hst
      split at hst
      case isFalse => cases hst
      case isTrue hfree =>
        cases hst
        refine h.setCall hc hend m.line m.files (some (.call i)) ?_ ?_
          (fun _ => rfl) ⟨hok.1, hok.2, rfl⟩
        · intro hl
          have hheld := h.isrLock hl
          rw [hfree] at hheld
          cases hheld
        · intro j d _ hd hl
          have hheld := h.callLock j d hd hl
          rw [hfree] at hheld
          cases hheld
  | first =>
      have hlocked : c.pc.locked = true := by rw [hpc]; rfl
      obtain ⟨hlist, -⟩ := h.listed (by rw [h.loaded hc hend]; rfl)
      rw [hpc] at hst hok
      obtain ⟨v, hv, hn⟩ := Option.map_eq_some_iff.mp hst
      have hhead : m.timeList.head? = behind 0 m.handled 0 := by
        rw [hlist]
        exact ListWalk.head?_range' 0 m.handled
      rw [hhead] at hv
      subst hn
      exact h.loop hc hend hlocked hok.1 (by rw [hok.2.1]; rfl) hok.2.2
        (Nat.zero_le _) hv
  | print pos q index =>
      have hlocked : c.pc.locked = true := by rw [hpc]; rfl
      obtain ⟨hlist, hrest⟩ := h.listed (by rw [h.loaded hc hend]; rfl)
      rw [hpc] at hst hok
      obtain ⟨hsaid, hprinted, hseen, hlt, rfl, hq⟩ := hok
      have hlive : m.nodes.live pos = true := by
        have hle := h.handled_le
        exact (hrest.2 pos).mpr ⟨Nat.zero_le _, by omega⟩
      cases hst
      rw [Slab.touch_of_live hlive]
      refine h.stay hc hend m.line m.files (fun _ => hlocked)
        ⟨hsaid, ?_, hseen, hlt, hq⟩
      have htime : c.seen[pos]? = some (timeAt m.nodes pos) := by
        rw [hseen]
        exact times_getElem? hlist hlt
      show c.printed ++ _ = (numbered c.seen).take (pos + 1)
      rw [hprinted, numbered_take_succ htime]
  | next q index =>
      have hlocked : c.pc.locked = true := by rw [hpc]; rfl
      rw [hpc] at hst hok
      obtain ⟨hsaid, hprinted, hseen, hle, hq⟩ := hok
      obtain ⟨v, hv, hn⟩ := Option.map_eq_some_iff.mp hst
      rw [hq] at hv
      subst hn
      exact h.loop hc hend hlocked hsaid hprinted hseen hle hv
  | unlock =>
      have hheld := h.callLock i c hc (by rw [hpc]; rfl)
      rw [hpc] at hst hok
      cases hst
      refine h.setCall hc hend m.line m.files none ?_ ?_
        (fun hl => by cases hl) ?_
      · intro hl
        rw [h.isrLock hl] at hheld
        cases hheld
      · intro j d hij hd hl
        rw [h.callLock j d hd hl] at hheld
        cases hheld
        exact absurd rfl hij
      · show Reported c
        rw [Reported, hok.1]
        exact hok.2.1
  | printEmpty =>
      rw [hpc] at hst hok
      cases hst
      exact h.stay hc hend m.line m.files (fun hl => by cases hl) hok
  | disable =>
      rw [hpc] at hst hok
      cases hst
      exact h.stay hc hend _ m.files (fun hl => by cases hl) hok
  | synchronize =>
      rw [hpc] at hst hok
      dsimp only at hst
      split at hst
      case isFalse => cases hst
      case isTrue hidle =>
        cases hst
        exact h.stay hc hend m.line m.files (fun hl => by cases hl) hok
  | released =>
      rw [hpc] at hst
      cases hst

end EmbeddedSystem.Labs.SpinInterrupt
