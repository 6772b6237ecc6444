import EmbeddedSystem.Labs.SpinInterruptInv

/-!
# The log of `spin_interrupt.c` is complete

The rest of the steps keeps the invariant too.  `spin_interrupt_exit` begins
its loop after `free_irq`, which has waited for the handler, and no file is
open, so nobody else has the list (`log_complete`).
-/

set_option autoImplicit false

namespace EmbeddedSystem.Labs.SpinInterrupt

open EmbeddedSystem.Verified
open EmbeddedSystem.Verified.CallPool
open EmbeddedSystem.Verified.Transition
open EmbeddedSystem.Verified.ListWalk (visit behind)

/-! ## Time, interrupts and new calls -/

theorem Inv.tick {m : Module} (h : Inv m) (ns : Nat) :
    Inv { m with now := m.now + ns } :=
  { h with
    sorted := fun p q hpq hq => by
      have hold := h.sorted p q hpq hq
      refine ⟨hold.1, ?_⟩
      show m.time q ≤ m.now + ns
      omega
    swept := fun s hs => by
      have hold := h.swept s hs
      cases s <;> exact hold }

theorem Inv.interrupt {m : Module} (h : Inv m)
    (hhandled : m.line.handled = true) (hidle : m.isr = .idle) :
    Inv { m with isr := .kmalloc, arrived := m.arrived + 1 } := by
  have hfreed : m.stage.irqFreed = false := by
    cases hf : m.stage.irqFreed with
    | false => rfl
    | true =>
        rw [(h.torn hf).2] at hhandled
        cases hhandled
  have hsweeping := Stage.not_sweeping hfreed
  have hfresh := h.fresh
  have hstamps := h.stamps
  have hsorted := h.sorted
  have hlisted := h.listed
  have hcall := h.call
  unfold Module.stamped at hstamps hsorted
  unfold Module.handled at hlisted
  rw [hidle] at hfresh hstamps hsorted hlisted
  refine
    { sound := h.sound
      fresh := congrArg (· + 1) hfresh
      node := fun p hp => by cases hp
      stamps := hstamps
      sorted := hsorted
      listed := hlisted
      swept := fun s hs => ?_
      gone := fun hret => ?_
      isrLock := fun hl => by cases hl
      callLock := h.callLock
      call := fun i c hc => (hcall i c hc).frame fun _ => ⟨rfl, ?_⟩
      closed := h.closed
      torn := fun hf => ?_ }
  · rw [show m.stage = .sweep s from hs] at hfreed
    cases hfreed
  · rw [show m.stage = .returned from hret] at hfreed
    cases hfreed
  · show m.arrived + 1 - 1 = m.arrived - m.isr.pending
    rw [hidle]
    rfl
  · rw [show m.stage.irqFreed = true from hf] at hfreed
    cases hfreed

/-- A file is opened or released. -/
theorem Inv.enter {m : Module} (h : Inv m) (hloaded : m.stage = .loaded)
    (files : Nat) {pc : CallPc} (hl : pc.locked = false)
    (hok : CallOk m (.entering pc)) :
    Inv { m with files := files, calls := m.calls ++ [.entering pc] } := by
  refine
    { sound := h.sound
      fresh := h.fresh
      node := h.node
      stamps := h.stamps
      sorted := h.sorted
      listed := h.listed
      swept := fun s hs => ?_
      gone := fun hret => ?_
      isrLock := h.isrLock
      callLock := fun j d hd hdl => ?_
      call := fun j d hd => ?_
      closed := fun hne => absurd hloaded hne
      torn := h.torn }
  · rw [show m.stage = .sweep s from hs] at hloaded
    cases hloaded
  · rw [show m.stage = .returned from hret] at hloaded
    cases hloaded
  · rcases lookup_append_cases hd with hold | ⟨-, rfl⟩
    · exact h.callLock j d hold hdl
    · rw [show (Call.entering pc).pc.locked = pc.locked from rfl, hl] at hdl
      cases hdl
  · rcases lookup_append_cases hd with hold | ⟨-, rfl⟩
    · exact h.call j d hold
    · exact hok

/-! ## `spin_interrupt_init` and `spin_interrupt_exit` -/

/-- A statement outside the loop. -/
theorem Inv.stageTo {m : Module} (h : Inv m) {stage : Stage} (line : IrqLine)
    (hold : m.stage.sweeping = false) (hnew : stage.sweeping = false)
    (closed : stage ≠ .loaded → ∀ (i : Nat) (c : Call),
      m.calls[i]? = some c → c.pc.ended = true)
    (torn : stage.irqFreed = true →
      m.isr = .idle ∧ line.handled = false) :
    Inv { m with line := line, stage := stage } := by
  refine
    { sound := h.sound
      fresh := h.fresh
      node := h.node
      stamps := h.stamps
      sorted := h.sorted
      listed := fun _ => h.listed hold
      swept := fun s hs => ?_
      gone := fun hret => ?_
      isrLock := h.isrLock
      callLock := h.callLock
      call := h.call
      closed := closed
      torn := torn }
  · rw [show stage = .sweep s from hs] at hnew
    cases hnew
  · rw [show stage = .returned from hret] at hnew
    cases hnew

/-- A statement of the loop, or the one before it. -/
theorem Inv.sweepTo {m : Module} (h : Inv m) {nodes : Slab Timespec}
    {timeList : List Nat} {stage : Stage} (sensor : Bool)
    (hfreed : m.stage.irqFreed = true) (hnew : stage.sweeping = true)
    (sound : nodes.Sound) (hfresh : nodes.fresh = m.nodes.fresh)
    (htime : ∀ p, timeAt nodes p = timeAt m.nodes p)
    (swept : ∀ s, stage = .sweep s →
      Swept { m with nodes := nodes, timeList := timeList } s)
    (gone : stage = .returned → timeList = [] ∧
      Rest { m with nodes := nodes } nodes.fresh) :
    Inv { m with
      nodes := nodes
      timeList := timeList
      sensorRequested := sensor
      stage := stage } := by
  have hne : m.stage ≠ .loaded := by
    intro hl
    rw [hl] at hfreed
    cases hfreed
  have hended := h.closed hne
  refine
    { sound := sound
      fresh := by rw [← h.fresh, ← hfresh]
      node := fun p hp => (h.node p hp).trans hfresh.symm
      stamps := h.stamps.trans (List.map_congr_left fun p _ =>
        (htime p).symm)
      sorted := fun p q hpq hq => ?_
      listed := fun hf => ?_
      swept := fun s hs => ?_
      gone := gone
      isrLock := h.isrLock
      callLock := h.callLock
      call := fun i c hc => (h.call i c hc).frame fun hl => ?_
      closed := fun _ => hended
      torn := fun _ => h.torn hfreed }
  · unfold Module.time
    dsimp only
    rw [htime p, htime q]
    exact h.sorted p q hpq hq
  · rw [show stage.sweeping = false from hf] at hnew
    cases hnew
  · have hnow := swept s hs
    cases s <;> exact hnow
  · rw [CallPc.not_locked (hended i c hc)] at hl
    cases hl

theorem Rest.live {m : Module} {first p : Nat} (h : Rest m first)
    (hfirst : first ≤ p) (hp : p < m.nodes.fresh) :
    m.nodes.live p = true :=
  (h.2 p).mpr ⟨hfirst, hp⟩

/-- The loop comes to the first node that is left, or to its end. -/
theorem Inv.sweepLoop {m : Module} {first : Nat}
    {v : Option (Nat × Option Nat)} (h : Inv m)
    (hfreed : m.stage.irqFreed = true) (hrest : Rest m first)
    (hlist : m.timeList = List.range' first (m.nodes.fresh - first))
    (hv : visit m.timeList (behind first (m.nodes.fresh - first) 0) =
      some v) :
    Inv { m with nodes := readLink m.nodes v, stage := .loop v } := by
  rw [hlist, ListWalk.visit_range', Option.some.injEq] at hv
  by_cases hlt : 0 < m.nodes.fresh - first
  · rw [if_pos hlt] at hv
    subst hv
    have hfirst : first < m.nodes.fresh := by omega
    have hlive : m.nodes.live (first + 0) = true :=
      hrest.live (Nat.le_refl first) hfirst
    have hnodes : readLink m.nodes (some (first + 0,
        behind first (m.nodes.fresh - first) (0 + 1))) = m.nodes :=
      Slab.touch_of_live hlive
    rw [hnodes]
    refine h.sweepTo m.sensorRequested hfreed rfl h.sound rfl
      (fun _ => rfl) (fun s hs => ?_) (fun hret => by cases hret)
    cases hs
    exact ⟨hrest, hfirst, hlist, rfl⟩
  · rw [if_neg hlt] at hv
    subst hv
    refine h.sweepTo m.sensorRequested hfreed rfl h.sound rfl
      (fun _ => rfl) (fun s hs => by cases hs) (fun _ => ⟨?_, ?_⟩)
    · have hzero : m.nodes.fresh - first = 0 := by omega
      rw [hlist, hzero]
      rfl
    · have hend : first = m.nodes.fresh := by
        have hle := hrest.1
        omega
      exact hend ▸ hrest

theorem Inv.sweepStep {m n : Module} {s : SweepPc} (h : Inv m)
    (hstage : m.stage = .sweep s)
    (hst : SpinInterrupt.sweepStep m s = some n) : Inv n := by
  have hfreed : m.stage.irqFreed = true := by rw [hstage]; rfl
  have hswept := h.swept s hstage
  cases s with
  | first =>
      obtain ⟨hrest, hlist⟩ := hswept
      obtain ⟨v, hv, rfl⟩ := Option.map_eq_some_iff.mp hst
      have hhead : m.timeList.head? = behind 0 (m.nodes.fresh - 0) 0 := by
        rw [hlist]
        exact ListWalk.head?_range' 0 m.nodes.fresh
      rw [hhead] at hv
      exact h.sweepLoop hfreed hrest hlist hv
  | del pos q =>
      obtain ⟨hrest, hlt, hlist, hq⟩ := hswept
      have hlive := hrest.live (Nat.le_refl pos) hlt
      have hsplit : m.nodes.fresh - pos = m.nodes.fresh - (pos + 1) + 1 := by
        omega
      cases hst
      rw [Slab.touch_of_live hlive]
      refine h.sweepTo m.sensorRequested hfreed rfl h.sound rfl
        (fun _ => rfl) (fun s hs => ?_) (fun hret => by cases hret)
      cases hs
      refine ⟨hrest, hlt, ?_, ?_⟩
      · show m.timeList.erase pos = _
        rw [hlist, hsplit, List.range'_succ, List.erase_cons_head]
      · show q = behind (pos + 1) (m.nodes.fresh - (pos + 1)) 0
        rw [hq, hsplit, ListWalk.behind_succ]
  | free pos q =>
      obtain ⟨hrest, hlt, hlist, hq⟩ := hswept
      have hlive := hrest.live (Nat.le_refl pos) hlt
      cases hst
      refine h.sweepTo m.sensorRequested hfreed rfl (h.sound.kfree hlive)
        (Slab.fresh_kfree m.nodes pos) (timeAt_kfree m.nodes pos)
        (fun s hs => ?_) (fun hret => by cases hret)
      cases hs
      refine ⟨pos + 1, ⟨?_, fun p => ?_⟩, ?_, ?_⟩
      · show pos + 1 ≤ (m.nodes.kfree pos).fresh
        rw [Slab.fresh_kfree]
        omega
      · show (m.nodes.kfree pos).live p = true ↔
          pos + 1 ≤ p ∧ p < (m.nodes.kfree pos).fresh
        rw [Slab.live_kfree, Slab.fresh_kfree, Bool.and_eq_true, hrest.2 p,
          bne_iff_ne]
        omega
      · show m.timeList = List.range' (pos + 1)
          ((m.nodes.kfree pos).fresh - (pos + 1))
        rw [Slab.fresh_kfree]
        exact hlist
      · show q = behind (pos + 1) ((m.nodes.kfree pos).fresh - (pos + 1)) 0
        rw [Slab.fresh_kfree]
        exact hq
  | next q =>
      obtain ⟨first, hrest, hlist, hq⟩ := hswept
      obtain ⟨v, hv, rfl⟩ := Option.map_eq_some_iff.mp hst
      rw [hq] at hv
      exact h.sweepLoop hfreed hrest hlist hv

/-- When no file is open and none is being opened or released, all calls
have returned. -/
theorem Module.ended_of_unused {m : Module} (h : m.unused = true)
    (i : Nat) (c : Call) (hc : m.calls[i]? = some c) :
    c.pc.ended = true := by
  unfold Module.unused at h
  rw [Bool.and_eq_true] at h
  exact List.all_eq_true.mp h.2 c (List.mem_of_getElem? hc)

theorem Inv.stageStep {m n : Module} (h : Inv m)
    (hst : SpinInterrupt.stageStep m m.stage = some n) : Inv n := by
  cases hstage : m.stage with
  | disable =>
      have hne : m.stage ≠ .loaded := by rw [hstage]; decide
      rw [hstage] at hst
      cases hst
      exact h.stageTo _ (by rw [hstage]; rfl) rfl (fun _ => h.closed hne)
        (fun hf => by cases hf)
  | synchronize =>
      rw [hstage, SpinInterrupt.stageStep] at hst
      split at hst
      case isFalse => cases hst
      case isTrue =>
        cases hst
        exact h.stageTo m.line (by rw [hstage]; rfl) rfl
          (fun hne => absurd rfl hne) (fun hf => by cases hf)
  | loaded =>
      rw [hstage, SpinInterrupt.stageStep] at hst
      split at hst
      case isFalse => cases hst
      case isTrue hunused =>
        cases hst
        exact h.stageTo m.line (by rw [hstage]; rfl) rfl
          (fun _ => Module.ended_of_unused hunused) (fun hf => by cases hf)
  | cdevDel =>
      have hne : m.stage ≠ .loaded := by rw [hstage]; decide
      rw [hstage] at hst
      cases hst
      exact h.stageTo m.line (by rw [hstage]; rfl) rfl
        (fun _ => h.closed hne) (fun hf => by cases hf)
  | unregister =>
      have hne : m.stage ≠ .loaded := by rw [hstage]; decide
      rw [hstage] at hst
      cases hst
      exact h.stageTo m.line (by rw [hstage]; rfl) rfl
        (fun _ => h.closed hne) (fun hf => by cases hf)
  | freeIrq =>
      have hne : m.stage ≠ .loaded := by rw [hstage]; decide
      rw [hstage, SpinInterrupt.stageStep] at hst
      split at hst
      case isFalse => cases hst
      case isTrue hidle =>
        cases hst
        exact h.stageTo _ (by rw [hstage]; rfl) rfl (fun _ => h.closed hne)
          (fun _ => ⟨hidle, IrqLine.handled_freeIrq m.line⟩)
  | freeGpio =>
      have hfreed : m.stage.irqFreed = true := by rw [hstage]; rfl
      obtain ⟨hlist, hrest⟩ := h.listed (by rw [hstage]; rfl)
      have hfresh := h.fresh
      unfold Module.handled at hlist
      rw [(h.torn hfreed).1] at hlist hfresh
      rw [hstage] at hst
      cases hst
      refine h.sweepTo false hfreed rfl h.sound rfl (fun _ => rfl)
        (fun s hs => ?_) (fun hret => by cases hret)
      cases hs
      have harrived : m.arrived - 0 = m.nodes.fresh := by
        have hsum : m.nodes.fresh + 0 = m.arrived := hfresh
        omega
      refine ⟨hrest, ?_⟩
      show m.timeList = List.range' 0 m.nodes.fresh
      rw [hlist, ← harrived]
      rfl
  | sweep s =>
      rw [hstage] at hst
      exact h.sweepStep hstage hst
  | returned =>
      rw [hstage] at hst
      cases hst

/-! ## Runs -/

theorem Inv.step {m n : Module} {mv : Move} (h : Inv m)
    (hst : SpinInterrupt.step m mv = some n) : Inv n := by
  cases mv with
  | tick ns =>
      cases hst
      exact h.tick ns
  | interrupt =>
      rw [SpinInterrupt.step] at hst
      split at hst
      case isFalse => cases hst
      case isTrue hon =>
        cases hst
        exact h.interrupt hon.1 hon.2
  | isr junk => exact h.isr hst
  | openFile =>
      rw [SpinInterrupt.step] at hst
      split at hst
      case isFalse => cases hst
      case isTrue hloaded =>
        cases hst
        exact h.enter hloaded m.files rfl trivial
  | releaseFile =>
      rw [SpinInterrupt.step] at hst
      split at hst
      case isFalse => cases hst
      case isTrue hopen =>
        cases hst
        exact h.enter hopen.1 (m.files - 1) rfl ⟨rfl, rfl⟩
  | call i =>
      rw [SpinInterrupt.step] at hst
      cases hc : m.calls[i]? with
      | none =>
          rw [hc] at hst
          cases hst
      | some c =>
          rw [hc] at hst
          exact h.callStep hc hst
  | stage => exact h.stageStep hst

theorem inv_run {gpioRet ret now : Int} {m : Module} {mvs : List Move}
    (hrun : run step (spinInterruptInit gpioRet ret now) mvs = some m) :
    Inv m :=
  run_induct (fun _ _ _ h hst => h.step hst) (init_inv gpioRet ret now) hrun

/-! ## The log -/

/-- The list has one node for each interrupt whose handler has appended its
own, in their order, with the times that their handlers have read, and these
do not decrease. -/
def Kept (m : Module) : Prop :=
  m.timeList = List.range m.handled ∧
    m.times = m.stamps.take m.handled ∧
    (m.times.map Timespec.toNs).Pairwise (· ≤ ·)

theorem Module.handled_le_stamped (m : Module) : m.handled ≤ m.stamped := by
  have hle : m.isr.unstamped ≤ m.isr.pending := by
    cases m.isr with
    | idle => exact Nat.le_refl 0
    | add p => exact Nat.zero_le 1
    | unlock => exact Nat.le_refl 0
    | leave => exact Nat.le_refl 0
    | _ => exact Nat.le_refl 1
  unfold Module.handled Module.stamped
  omega

theorem Inv.kept {m : Module} (h : Inv m)
    (hsweeping : m.stage.sweeping = false) : Kept m := by
  have hlist : m.timeList = List.range m.handled := by
    rw [(h.listed hsweeping).1, List.range_eq_range']
  have hle := m.handled_le_stamped
  have htimes : m.times = (List.range m.handled).map (timeAt m.nodes) := by
    unfold Module.times
    rw [hlist]
  refine ⟨hlist, ?_, ?_⟩
  · rw [htimes, h.stamps, ← List.map_take, List.take_range,
      Nat.min_eq_left hle]
  · rw [htimes, List.map_map, List.pairwise_map]
    refine List.pairwise_lt_range.imp_of_mem fun {p q} _ hq hpq => ?_
    rw [List.mem_range] at hq
    exact (h.sorted p q (by omega) (by omega)).1

@[simp] theorem timeAt_touch (nodes : Slab Timespec) (p : Nat) :
    timeAt (nodes.touch p) = timeAt nodes := by
  funext q
  unfold timeAt
  rw [Slab.get_touch]

theorem timeAt_readLink (nodes : Slab Timespec)
    (v : Option (Nat × Option Nat)) :
    timeAt (readLink nodes v) = timeAt nodes := by
  cases v with
  | none => rfl
  | some pq => exact timeAt_touch nodes pq.1

/-- Opening and releasing a file change neither the list nor its times. -/
theorem callStep_list {m n : Module} {i : Nat} {c : Call}
    (hst : SpinInterrupt.callStep m i c = some n) :
    n.timeList = m.timeList ∧ n.times = m.times := by
  unfold SpinInterrupt.callStep at hst
  cases hpc : c.pc with
  | opened =>
      rw [hpc] at hst
      cases hst
  | released =>
      rw [hpc] at hst
      cases hst
  | lockList =>
      rw [hpc] at hst
      dsimp only at hst
      split at hst
      case isFalse => cases hst
      case isTrue =>
        cases hst
        exact ⟨rfl, rfl⟩
  | synchronize =>
      rw [hpc] at hst
      dsimp only at hst
      split at hst
      case isFalse => cases hst
      case isTrue =>
        cases hst
        exact ⟨rfl, rfl⟩
  | first =>
      rw [hpc] at hst
      obtain ⟨v, -, rfl⟩ := Option.map_eq_some_iff.mp hst
      refine ⟨rfl, ?_⟩
      show m.timeList.map (timeAt (readLink m.nodes v)) = m.times
      rw [timeAt_readLink]
      rfl
  | next q index =>
      rw [hpc] at hst
      obtain ⟨v, -, rfl⟩ := Option.map_eq_some_iff.mp hst
      refine ⟨rfl, ?_⟩
      show m.timeList.map (timeAt (readLink m.nodes v)) = m.times
      rw [timeAt_readLink]
      rfl
  | print pos q index =>
      rw [hpc] at hst
      cases hst
      refine ⟨rfl, ?_⟩
      show m.timeList.map (timeAt (m.nodes.touch pos)) = m.times
      rw [timeAt_touch]
      rfl
  | _ =>
      rw [hpc] at hst
      cases hst
      exact ⟨rfl, rfl⟩

/-- A release that holds the lock can go on: no link that it has read is
poisoned. -/
theorem Inv.locked_goes_on {m : Module} {i : Nat} {c : Call} (h : Inv m)
    (hc : m.calls[i]? = some c) (hl : c.pc.locked = true) :
    ∃ n, SpinInterrupt.step m (.call i) = some n := by
  have hok := h.call i c hc
  have hloaded : m.stage = .loaded := by
    apply h.loaded hc
    cases hend : c.pc.ended with
    | false => rfl
    | true =>
        rw [CallPc.not_locked hend] at hl
        cases hl
  have hlist := (h.listed (by rw [hloaded]; rfl)).1
  unfold CallOk at hok
  rw [SpinInterrupt.step, hc]
  dsimp only
  unfold SpinInterrupt.callStep
  cases hpc : c.pc with
  | first =>
      dsimp only
      have hhead : m.timeList.head? = behind 0 m.handled 0 := by
        rw [hlist]
        exact ListWalk.head?_range' 0 m.handled
      rw [hhead, hlist, ListWalk.visit_range']
      exact ⟨_, rfl⟩
  | print pos q index => exact ⟨_, rfl⟩
  | next q index =>
      rw [hpc] at hok
      obtain ⟨-, -, -, -, hq⟩ := hok
      dsimp only
      rw [hq, hlist, ListWalk.visit_range']
      exact ⟨_, rfl⟩
  | unlock => exact ⟨_, rfl⟩
  | _ =>
      rw [hpc] at hl
      cases hl

/-! ## The loop of `spin_interrupt_exit` ends -/

/-- A bound on the statements that are left, where `len` is the length of the
list. -/
def Stage.left (len : Nat) : Stage → Nat
  | .sweep .first => 3 * len + 1
  | .sweep (.del _ _) => 3 * len
  | .sweep (.free _ _) => 3 * len + 2
  | .sweep (.next _) => 3 * len + 1
  | _ => 0

def Module.left (m : Module) : Nat := m.stage.left m.timeList.length

theorem Stage.sweeping_loop (v : Option (Nat × Option Nat)) :
    (Stage.loop v).sweeping = true := by
  cases v with
  | none => rfl
  | some pq => rfl

theorem Stage.left_loop (len : Nat) (v : Option (Nat × Option Nat)) :
    (Stage.loop v).left len < 3 * len + 1 := by
  cases v with
  | none => exact Nat.succ_pos _
  | some pq => exact Nat.lt_succ_self _

theorem Inv.sweep_goes_on {m : Module} {s : SweepPc} (h : Inv m)
    (hstage : m.stage = .sweep s) :
    ∃ n, SpinInterrupt.step m .stage = some n ∧
      n.stage.sweeping = true ∧ n.left < m.left := by
  have hswept := h.swept s hstage
  unfold Module.left
  rw [SpinInterrupt.step, hstage, SpinInterrupt.stageStep]
  cases s with
  | first =>
      obtain ⟨-, hlist⟩ := hswept
      have hvisit : ∃ v, visit m.timeList m.timeList.head? = some v := by
        rw [hlist, ListWalk.head?_range', ListWalk.visit_range']
        exact ⟨_, rfl⟩
      obtain ⟨v, hv⟩ := hvisit
      rw [SpinInterrupt.sweepStep, hv]
      exact ⟨_, rfl, Stage.sweeping_loop v, Stage.left_loop _ v⟩
  | del pos q =>
      obtain ⟨-, hlt, hlist, -⟩ := hswept
      have hmem : pos ∈ m.timeList := by
        rw [hlist, List.mem_range'_1]
        omega
      have hlen := List.length_erase_of_mem hmem
      have hpos := List.length_pos_of_mem hmem
      refine ⟨_, rfl, rfl, ?_⟩
      show 3 * (m.timeList.erase pos).length + 2 < 3 * m.timeList.length
      omega
  | free pos q => exact ⟨_, rfl, rfl, Nat.lt_succ_self _⟩
  | next q =>
      obtain ⟨first, -, hlist, hq⟩ := hswept
      have hvisit : ∃ v, visit m.timeList q = some v := by
        rw [hlist, hq, ListWalk.visit_range']
        exact ⟨_, rfl⟩
      obtain ⟨v, hv⟩ := hvisit
      rw [SpinInterrupt.sweepStep, hv]
      exact ⟨_, rfl, Stage.sweeping_loop v, Stage.left_loop _ v⟩

/-- A loop that has begun comes to its end by its own statements. -/
theorem Inv.returns {m : Module} (h : Inv m)
    (hsweeping : m.stage.sweeping = true) :
    ∃ k n, run SpinInterrupt.step m (List.replicate k .stage) = some n ∧
      n.stage = .returned := by
  induction hleft : m.left using Nat.strongRecOn generalizing m with
  | ind left ih =>
      cases hstage : m.stage with
      | returned => exact ⟨0, m, rfl, hstage⟩
      | sweep s =>
          obtain ⟨n, hst, hgoes, hlt⟩ := h.sweep_goes_on hstage
          rw [hleft] at hlt
          obtain ⟨k, u, hrun, hret⟩ := ih n.left hlt (h.step hst) hgoes rfl
          refine ⟨k + 1, u, ?_, hret⟩
          rw [List.replicate_succ, run_cons, hst]
          exact hrun
      | _ =>
          rw [hstage] at hsweeping
          cases hsweeping

/-! ## Nobody else has the list then -/

theorem Stage.irqFreed_of_sweeping {stage : Stage}
    (h : stage.sweeping = true) : stage.irqFreed = true := by
  cases stage with
  | sweep s => rfl
  | returned => rfl
  | _ => cases h

theorem sweepStep_list {m n : Module} {s : SweepPc}
    (hst : SpinInterrupt.sweepStep m s = some n) :
    n.stage.sweeping = true ∧ n.arrived = m.arrived ∧
      n.timeList ⊆ m.timeList := by
  cases s with
  | first =>
      obtain ⟨v, -, rfl⟩ := Option.map_eq_some_iff.mp hst
      exact ⟨Stage.sweeping_loop v, rfl, List.Subset.refl _⟩
  | del pos q =>
      cases hst
      exact ⟨rfl, rfl, List.erase_subset⟩
  | free pos q =>
      cases hst
      exact ⟨rfl, rfl, List.Subset.refl _⟩
  | next q =>
      obtain ⟨v, -, rfl⟩ := Option.map_eq_some_iff.mp hst
      exact ⟨Stage.sweeping_loop v, rfl, List.Subset.refl _⟩

/-- After the loop has begun no handler is called, and no step adds a
node. -/
theorem Inv.shut {m n : Module} {mv : Move} (h : Inv m)
    (hsweeping : m.stage.sweeping = true)
    (hst : SpinInterrupt.step m mv = some n) :
    n.stage.sweeping = true ∧ n.arrived = m.arrived ∧
      n.timeList ⊆ m.timeList := by
  obtain ⟨hidle, hhandled⟩ :=
    h.torn (Stage.irqFreed_of_sweeping hsweeping)
  have hne : m.stage ≠ .loaded := by
    intro hl
    rw [hl] at hsweeping
    cases hsweeping
  cases mv with
  | tick ns =>
      cases hst
      exact ⟨hsweeping, rfl, List.Subset.refl _⟩
  | interrupt =>
      rw [SpinInterrupt.step, hhandled] at hst
      cases hst
  | isr junk =>
      rw [SpinInterrupt.step, hidle] at hst
      cases hst
  | openFile =>
      rw [SpinInterrupt.step, if_neg hne] at hst
      cases hst
  | releaseFile =>
      rw [SpinInterrupt.step, if_neg fun hopen => hne hopen.1] at hst
      cases hst
  | call i =>
      rw [SpinInterrupt.step] at hst
      cases hc : m.calls[i]? with
      | none =>
          rw [hc] at hst
          cases hst
      | some c =>
          rw [hc] at hst
          have hend := h.closed hne i c hc
          rw [not_ended_of_callStep hst] at hend
          cases hend
  | stage =>
      rw [SpinInterrupt.step] at hst
      cases hstage : m.stage with
      | sweep s =>
          rw [hstage] at hst
          exact sweepStep_list hst
      | returned =>
          rw [hstage] at hst
          cases hst
      | _ =>
          rw [hstage] at hsweeping
          cases hsweeping

theorem Inv.shut_run {m n : Module} {mvs : List Move} (h : Inv m)
    (hsweeping : m.stage.sweeping = true)
    (hrun : run SpinInterrupt.step m mvs = some n) :
    n.arrived = m.arrived ∧ n.timeList ⊆ m.timeList := by
  obtain ⟨-, -, hall⟩ := run_induct
    (P := fun u => Inv u ∧ u.stage.sweeping = true ∧
      u.arrived = m.arrived ∧ u.timeList ⊆ m.timeList)
    (fun u mv v hu hst => by
      obtain ⟨hinv, hs, harrived, hsub⟩ := hu
      obtain ⟨hs', harrived', hsub'⟩ := hinv.shut hs hst
      exact ⟨hinv.step hst, hs', harrived'.trans harrived,
        List.Subset.trans hsub' hsub⟩)
    ⟨h, hsweeping, rfl, List.Subset.refl _⟩ hrun
  exact hall

/-- Until `spin_interrupt_exit` begins its loop, the list is the log of the
interrupts.  A release has printed, numbered from 0, the times that the list
had when it took the lock and as long as it held it, or that the list is
empty, and then it was when it looked; no open or release changes the list,
and none gets stuck on it.  From the beginning of the loop on no interrupt is
handled and no node is added, and the loop comes to its end.  No node is read
or written after it was freed, none is freed twice, and when
`spin_interrupt_exit` has returned, the node of every interrupt was freed. -/
theorem log_complete {gpioRet ret now : Int} {m : Module} {mvs : List Move}
    (hrun : run step (spinInterruptInit gpioRet ret now) mvs = some m) :
    (m.stage.sweeping = false → Kept m) ∧
      (∀ c ∈ m.calls, c.pc = .released → Reported c) ∧
      (∀ (i : Nat) (c : Call), m.calls[i]? = some c → c.pc.locked = true →
        c.seen = m.times ∧ ∃ n, step m (.call i) = some n) ∧
      (∀ i n, step m (.call i) = some n →
        n.timeList = m.timeList ∧ n.times = m.times) ∧
      (m.stage.sweeping = true →
        (∀ mvs' n, run step m mvs' = some n →
          n.arrived = m.arrived ∧ n.timeList ⊆ m.timeList) ∧
        ∃ k n, run step m (List.replicate k .stage) = some n ∧
          n.stage = .returned) ∧
      (m.nodes.stale = 0 ∧ ∀ p, m.nodes.freeCount p ≤ 1) ∧
      (m.stage = .returned →
        m.timeList = [] ∧ m.nodes.fresh = m.arrived ∧
          ∀ p, p < m.arrived → m.nodes.freeCount p = 1) := by
  have h := inv_run hrun
  refine ⟨h.kept, ?_, ?_, ?_, ?_, ⟨h.sound.stale,
    h.sound.freeCount_le_one⟩, ?_⟩
  · intro c hmem hpc
    obtain ⟨i, hc⟩ := List.mem_iff_getElem?.mp hmem
    have hok := h.call i c hc
    rw [CallOk, hpc] at hok
    exact hok
  · intro i c hc hl
    exact ⟨(h.call i c hc).seen_eq hl, h.locked_goes_on hc hl⟩
  · intro i n hst
    rw [step] at hst
    cases hc : m.calls[i]? with
    | none =>
        rw [hc] at hst
        cases hst
    | some c =>
        rw [hc] at hst
        exact callStep_list hst
  · intro hsweeping
    exact ⟨fun mvs' n hrun' => h.shut_run hsweeping hrun',
      h.returns hsweeping⟩
  · intro hret
    obtain ⟨hlist, hrest⟩ := h.gone hret
    have hidle := (h.torn (by rw [hret]; rfl)).1
    have hfresh := h.fresh
    rw [hidle] at hfresh
    have harrived : m.nodes.fresh = m.arrived := hfresh
    refine ⟨hlist, harrived, fun p hp => ?_⟩
    rw [← harrived] at hp
    rcases h.sound.once p hp with hlive | hfreed
    · have hleft := ((hrest.2 p).mp hlive).1
      omega
    · exact hfreed

/-- The second interrupt comes while a release prints the first one. -/
def twoDetectionsRun : List Move :=
  List.flatten
    [ [.stage, .stage, .openFile, .call 0, .interrupt]
    , List.replicate 6 (.isr ⟨0, 0⟩)
    , [.tick 3000000000, .releaseFile, .call 1, .call 1, .interrupt]
    , [.isr ⟨7, 7⟩, .call 1, .call 1, .call 1, .call 1]
    , List.replicate 5 (.isr ⟨0, 0⟩)
    , [.call 1, .call 1]
    , List.replicate 12 .stage ]

theorem log_complete_twoDetections :
    ∃ m, run step (spinInterruptInit 0 0 2000000005) twoDetectionsRun =
        some m ∧
      m.calls.map (·.printed) = [[], [(0, 2)]] ∧ m.stage = .returned ∧
      m.nodes.freeCount 0 = 1 ∧ m.nodes.freeCount 1 = 1 := by
  have hend : (run step (spinInterruptInit 0 0 2000000005)
      twoDetectionsRun).map
        (fun m => (m.calls.map (·.printed), m.stage, m.arrived)) =
      some ([[], [(0, 2)]], .returned, 2) := by
    decide +kernel
  obtain ⟨m, hrun, hm⟩ := Option.map_eq_some_iff.mp hend
  simp only [Prod.mk.injEq] at hm
  obtain ⟨hprinted, hret, harrived⟩ := hm
  have hfreed := ((log_complete hrun).2.2.2.2.2.2 hret).2.2
  exact ⟨m, hrun, hprinted, hret, hfreed 0 (by omega), hfreed 1 (by omega)⟩

end EmbeddedSystem.Labs.SpinInterrupt
