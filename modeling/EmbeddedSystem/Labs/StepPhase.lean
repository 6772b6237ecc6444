import EmbeddedSystem.Labs.StepMotor
import Mathlib.Data.List.Chain
import Mathlib.Data.List.Pairwise

/-!
# The phase of the stepper motor in `ch9_mod_202111360.c`

The motor turns by one half-step when the coils go from one row of the tables
to a neighbouring one.  A round runs through all eight rows, so a round that
follows another one in the same direction goes on where that one ended, and so
does a call that follows a call in the same direction.

A call in the other direction starts with the row at which the last one ended:
forward ends with row 7 and backward starts with row 7, and the other way
round with row 0.  The first half-step of such a call does not turn the motor.
-/

set_option autoImplicit false

namespace EmbeddedSystem.Labs.StepMotor

/-! ## What the coils show -/

/-- What the pins are at after each complete `setstep`, which sets PIN4
last. -/
def latched (l : Levels) : List Op → List (Bool × Bool × Bool × Bool)
  | [] => []
  | op :: ops =>
      match op with
      | .udelay _ => latched l ops
      | .gpioSetValue pin _ =>
          if pin = pin4 then pins (apply l op) :: latched (apply l op) ops
          else latched (apply l op) ops

/-- The row of the tables that drives the pins like this. -/
def tableIndex (v : Bool × Bool × Bool × Bool) : Option (Fin 8) :=
  (List.finRange steps).find? fun j => pattern (some j) = v

/-- The rows shown one after another.  A `setstep` is complete when it has set
PIN4; switched off is no row. -/
def shown (l : Levels) : List Op → List (Fin 8)
  | [] => []
  | op :: ops =>
      match op with
      | .udelay _ => shown l ops
      | .gpioSetValue pin _ =>
          if pin = pin4 then
            (tableIndex (pins (apply l op))).toList ++ shown (apply l op) ops
          else shown (apply l op) ops

/-- The rows that a sequence of calls shows, each with the direction of its
call. -/
def emitted (l : Levels) : List Move → List (Int × Fin 8)
  | [] => []
  | m :: moves =>
      let ops := moveDegree m.degree m.delay m.direction
      (shown l ops).map (fun j => (m.direction, j)) ++
        emitted (ops.foldl apply l) moves

/-- One half-step on from `a`, in the direction of `b`. -/
def Continues (a b : Int × Fin 8) : Prop :=
  if b.1 = 0 then b.2.val = (a.2.val + 1) % 8
  else a.2.val = (b.2.val + 1) % 8

instance (a b : Int × Fin 8) : Decidable (Continues a b) :=
  inferInstanceAs
    (Decidable (if b.1 = 0 then b.2.val = (a.2.val + 1) % 8
      else a.2.val = (b.2.val + 1) % 8))

/-! ## The patterns of a call -/

theorem latched_append (l : Levels) (xs ys : List Op) :
    latched l (xs ++ ys) = latched l xs ++ latched (xs.foldl apply l) ys := by
  induction xs generalizing l with
  | nil => rfl
  | cons op xs ih =>
      cases op with
      | udelay usecs => exact ih l
      | gpioSetValue pin value =>
          simp only [List.cons_append, latched, List.foldl_cons, ih]
          split
          · rw [List.cons_append]
          · rfl

theorem latched_setstep (l : Levels) (p1 p2 p3 p4 : Int) :
    latched l (setstep p1 p2 p3 p4) =
      [(decide (p1 ≠ 0), decide (p2 ≠ 0), decide (p3 ≠ 0),
        decide (p4 ≠ 0))] := rfl

theorem latched_halfStep (l : Levels) (delay : Int) (j : Fin 8) :
    latched l (halfStep delay j) = [pattern (some j)] := by
  rw [halfStep, latched_append, latched_setstep]
  rfl

theorem latched_flatMap_halfStep (l : Levels) (delay : Int)
    (js : List (Fin 8)) :
    latched l (js.flatMap (halfStep delay)) =
      js.map fun j => pattern (some j) := by
  induction js generalizing l with
  | nil => rfl
  | cons j js ih =>
      rw [List.flatMap_cons, latched_append, latched_halfStep, ih]
      rfl

/-- The rows of one turn of the outer loop. -/
def roundRows (direction : Int) : List (Fin 8) :=
  if direction = 0 then List.finRange steps
  else if direction = 1 then (List.finRange steps).reverse
  else []

theorem latched_round (l : Levels) (delay direction : Int) :
    latched l (round delay direction) =
      (roundRows direction).map fun j => pattern (some j) := by
  unfold round roundRows
  split
  · exact latched_flatMap_halfStep l delay _
  · split
    · exact latched_flatMap_halfStep l delay _
    · rfl

theorem latched_rounds (l : Levels) (delay direction : Int) (n : Nat) :
    latched l (rounds delay direction n) = (List.replicate n
      ((roundRows direction).map fun j => pattern (some j))).flatten := by
  induction n generalizing l with
  | zero => rfl
  | succ n ih =>
      rw [rounds, latched_append, latched_round, ih, List.replicate_succ,
        List.flatten_cons]

/-- The patterns of a call before it switches the motor off. -/
def callPatterns (degree direction : Int) :
    List (Bool × Bool × Bool × Bool) :=
  (List.replicate (targetRounds degree).toNat
    ((roundRows direction).map fun j => pattern (some j))).flatten

theorem latched_moveDegree (l : Levels) (degree delay direction : Int) :
    latched l (moveDegree degree delay direction) =
      callPatterns degree direction ++ [pattern none] := by
  rw [moveDegree, latched_append, latched_rounds, latched_setstep]
  rfl

/-! ## The rows of a call -/

/-- The rows are all different. -/
theorem tableIndex_pattern (j : Fin 8) :
    tableIndex (pattern (some j)) = some j := by
  revert j
  decide

/-- The rows are those of the patterns. -/
theorem shown_eq (l : Levels) (ops : List Op) :
    shown l ops = (latched l ops).filterMap tableIndex := by
  induction ops generalizing l with
  | nil => rfl
  | cons op ops ih =>
      cases op with
      | udelay usecs => exact ih l
      | gpioSetValue pin value =>
          simp only [shown, latched]
          split
          · rw [ih, List.filterMap_cons]
            cases tableIndex (pins (apply l (.gpioSetValue pin value))) with
            | none => rfl
            | some j => rfl
          · exact ih _

theorem shown_moveDegree (l : Levels) (degree delay direction : Int) :
    shown l (moveDegree degree delay direction) =
      (List.replicate (targetRounds degree).toNat
        (roundRows direction)).flatten := by
  have hrows : ∀ js : List (Fin 8),
      (js.map fun j => pattern (some j)).filterMap tableIndex = js := by
    intro js
    rw [List.filterMap_map]
    exact (List.filterMap_congr fun j _ => tableIndex_pattern j).trans
      List.filterMap_some
  have hoff : [pattern none].filterMap tableIndex = [] := by decide
  rw [shown_eq, latched_moveDegree, List.filterMap_append, hoff,
    List.append_nil, callPatterns, List.filterMap_flatten, List.map_replicate,
    hrows]

/-! ## All rounds of all calls -/

/-- The directions of the rounds that the calls make. -/
def roundsOf (moves : List Move) : List Int :=
  moves.flatMap fun m =>
    List.replicate (targetRounds m.degree).toNat m.direction

/-- A round as it is emitted. -/
def taggedRows (direction : Int) : List (Int × Fin 8) :=
  (roundRows direction).map fun j => (direction, j)

theorem emitted_eq (l : Levels) (moves : List Move) :
    emitted l moves = ((roundsOf moves).map taggedRows).flatten := by
  induction moves generalizing l with
  | nil => rfl
  | cons m moves ih =>
      have hcons : roundsOf (m :: moves) =
          List.replicate (targetRounds m.degree).toNat m.direction ++
            roundsOf moves := List.flatMap_cons
      rw [emitted, ih, hcons, List.map_append, List.flatten_append,
        shown_moveDegree, List.map_flatten, List.map_replicate,
        List.map_replicate]
      rfl

/-- A round goes from row to row; the next one goes on where it ended exactly
if it has the same direction. -/
theorem taggedRows_chain {d d' : Int} (hd : d = 0 ∨ d = 1)
    (hd' : d' = 0 ∨ d' = 1) :
    taggedRows d ≠ [] ∧ (taggedRows d).IsChain Continues ∧
      ((∀ x ∈ (taggedRows d).getLast?, ∀ y ∈ (taggedRows d').head?,
        Continues x y) ↔ d = d') := by
  rcases hd with rfl | rfl <;> rcases hd' with rfl | rfl <;> decide

/-- The rounds are in phase exactly if they all have the same direction. -/
theorem rounds_isChain_iff {ds : List Int} (h : ∀ d ∈ ds, d = 0 ∨ d = 1) :
    (ds.map taggedRows).flatten.IsChain Continues ↔
      ∀ d ∈ ds, ∀ d' ∈ ds, d = d' := by
  have hnil : [] ∉ ds.map taggedRows := by
    intro hmem
    obtain ⟨d, hd, hempty⟩ := List.mem_map.mp hmem
    exact (taggedRows_chain (h d hd) (h d hd)).1 hempty
  have hrows : ∀ rows ∈ ds.map taggedRows, rows.IsChain Continues := by
    intro rows hmem
    obtain ⟨d, hd, rfl⟩ := List.mem_map.mp hmem
    exact (taggedRows_chain (h d hd) (h d hd)).2.1
  rw [List.isChain_flatten hnil, and_iff_right hrows, List.isChain_map]
  rw [List.IsChain.iff_of_mem_imp (S := fun d d' => d = d')
    fun d d' hd hd' => (taggedRows_chain (h d hd) (h d' hd')).2.2]
  rw [List.isChain_iff_pairwise]
  constructor
  · intro hpair d hd d' hd'
    exact hpair.forall_of_forall (fun _ _ => rfl) hd hd'
  · intro hall
    exact List.pairwise_of_forall_mem_list fun d hd d' hd' => hall d hd d' hd'

/-! ## The result -/

/-- A call that does not overflow makes the rounds that its degree is good
for, rounded down. -/
theorem targetRounds_eq {degree : Int} (hlo : 0 ≤ degree)
    (hhi : degree * oneRound < 0x80000000) :
    targetRounds degree = 512 * degree / 360 := by
  unfold oneRound at hhi
  have hwrap : wrap32 (degree * oneRound) = 512 * degree := by
    unfold wrap32 oneRound
    rw [Int.bmod_eq_of_le (by omega) (by omega), Int.mul_comm]
  rw [targetRounds, hwrap, Int.tdiv_eq_ediv_of_nonneg (by omega)]

/-- It makes a round as soon as the degree is positive. -/
theorem targetRounds_pos_iff {degree : Int} (hlo : 0 ≤ degree)
    (hhi : degree * oneRound < 0x80000000) :
    0 < (targetRounds degree).toNat ↔ 0 < degree := by
  rw [targetRounds_eq hlo hhi]
  omega

theorem mem_roundsOf {moves : List Move}
    (hdeg : ∀ m ∈ moves, 0 ≤ m.degree ∧ m.degree * oneRound < 0x80000000)
    {d : Int} : d ∈ roundsOf moves ↔
      ∃ m ∈ moves, 0 < m.degree ∧ m.direction = d := by
  unfold roundsOf
  rw [List.mem_flatMap]
  refine exists_congr fun m => and_congr_right fun hm => ?_
  rw [List.mem_replicate, ← Nat.pos_iff_ne_zero,
    targetRounds_pos_iff (hdeg m hm).1 (hdeg m hm).2]
  exact and_congr_right fun _ => eq_comm

/-- For every sequence of calls: each row shown is one half-step on from the
row before it, in the direction of its call, if and only if all the calls that
turn the motor at all have the same direction. -/
theorem phase_continuous_iff (l : Levels) (moves : List Move)
    (hdir : ∀ m ∈ moves, m.direction = 0 ∨ m.direction = 1)
    (hdeg : ∀ m ∈ moves, 0 ≤ m.degree ∧ m.degree * oneRound < 0x80000000) :
    (emitted l moves).IsChain Continues ↔
      ∀ m ∈ moves, ∀ m' ∈ moves, 0 < m.degree → 0 < m'.degree →
        m.direction = m'.direction := by
  have hds : ∀ d ∈ roundsOf moves, d = 0 ∨ d = 1 := by
    intro d hd
    obtain ⟨m, hm, -, rfl⟩ := (mem_roundsOf hdeg).mp hd
    exact hdir m hm
  rw [emitted_eq, rounds_isChain_iff hds]
  constructor
  · intro hall m hm m' hm' hpos hpos'
    exact hall _ ((mem_roundsOf hdeg).mpr ⟨m, hm, hpos, rfl⟩)
      _ ((mem_roundsOf hdeg).mpr ⟨m', hm', hpos', rfl⟩)
  · intro hall d hd d' hd'
    obtain ⟨m, hm, hpos, rfl⟩ := (mem_roundsOf hdeg).mp hd
    obtain ⟨m', hm', hpos', rfl⟩ := (mem_roundsOf hdeg).mp hd'
    exact hall m hm m' hm' hpos hpos'

/-- The two calls of `simple_motor_init` that turn the motor backward. -/
theorem phase_continuous_iff_init :
    (emitted (fun _ => false)
      [⟨45, 3000, 1⟩, ⟨45, 3000, 1⟩]).IsChain Continues :=
  (phase_continuous_iff (fun _ => false) [⟨45, 3000, 1⟩, ⟨45, 3000, 1⟩]
    (by decide) (by decide)).mpr (by decide)

/-- One degree forward and one degree back: row 7 is shown twice. -/
theorem reversal_loses_halfStep :
    emitted (fun _ => false) [⟨1, 3000, 0⟩, ⟨1, 3000, 1⟩] =
        [(0, 0), (0, 1), (0, 2), (0, 3), (0, 4), (0, 5), (0, 6), (0, 7),
          (1, 7), (1, 6), (1, 5), (1, 4), (1, 3), (1, 2), (1, 1), (1, 0)] ∧
      ¬ (emitted (fun _ => false)
        [⟨1, 3000, 0⟩, ⟨1, 3000, 1⟩]).IsChain Continues := by
  have hrows : emitted (fun _ => false) [⟨1, 3000, 0⟩, ⟨1, 3000, 1⟩] =
      [(0, 0), (0, 1), (0, 2), (0, 3), (0, 4), (0, 5), (0, 6), (0, 7),
        (1, 7), (1, 6), (1, 5), (1, 4), (1, 3), (1, 2), (1, 1), (1, 0)] := by
    decide +kernel
  refine ⟨hrows, ?_⟩
  rw [hrows]
  decide

end EmbeddedSystem.Labs.StepMotor
