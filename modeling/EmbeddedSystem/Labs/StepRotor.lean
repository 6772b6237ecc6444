import EmbeddedSystem.Labs.StepCompose

/-!
# Where the rotor of the stepper motor ends up

A rotor position is an integer, in half-steps from some origin.  While the
coils show row `j` of the tables, a rotor that is less than half a turn of the
field away comes to rest at the next position that is `j` modulo 8; exactly
opposite to it, where it might turn either way, is `none`.  A rotor does not
move while the motor is off, nor in the time that it takes to set four pins,
so it follows what the coils show during each `udelay`.

A reversal loses a half-step (`StepPhase`).  It does not add up:
whatever the sequence of calls, the rotor ends within one half-step of
where the rounds of all the calls put it, and it is never pulled by more than
one half-step at a time.
-/

set_option autoImplicit false

namespace EmbeddedSystem.Labs.StepMotor

open EmbeddedSystem.Verified.Transition

/-- The rotor at `p` when the coils show row `j`. -/
def pull (p : Int) (j : Fin 8) : Option Int :=
  let d := (j.val - p) % 8
  if d = 4 then none else some (if d < 4 then p + d else p + d - 8)

/-- The pins and the rotor after one statement. -/
def turn (s : Levels × Int) : Op → Option (Levels × Int)
  | .gpioSetValue pin value => some (apply s.1 (.gpioSetValue pin value), s.2)
  | .udelay _ =>
      match tableIndex (pins s.1) with
      | none => some s
      | some j => (pull s.2 j).map fun p => (s.1, p)

/-- The rotor at a sequence of rows. -/
def pulls (p : Int) (js : List (Fin 8)) : Option Int := js.foldlM pull p

/-! ## The rotor and the rows -/

/-- The tables repeat with every turn of the field. -/
theorem pull_shift (k p : Int) (j : Fin 8) :
    pull (8 * k + p) j = (pull p j).map (8 * k + ·) := by
  have hmod : (j.val - (8 * k + p)) % 8 = (j.val - p) % 8 := by omega
  unfold pull
  dsimp only
  rw [hmod]
  split
  · rfl
  · rw [Option.map_some]
    congr 1
    split <;> omega

theorem pulls_shift (k p : Int) (js : List (Fin 8)) :
    pulls (8 * k + p) js = (pulls p js).map (8 * k + ·) := by
  induction js generalizing p with
  | nil => rfl
  | cons j js ih =>
      unfold pulls at ih ⊢
      rw [List.foldlM_cons, List.foldlM_cons, pull_shift]
      cases pull p j with
      | none => rfl
      | some q => exact ih q

/-- The rotor rests between two turns of the field: at the end of a round
forward or at that of a round backward. -/
def RestsAt (p g : Int) : Prop := p = 8 * g - 1 ∨ p = 8 * g

/-- A round takes the rotor from its place between two turns of the field to
the next such place, wherever exactly it rests. -/
theorem pulls_round {p g : Int} (h : RestsAt p g) :
    pulls p (roundRows 0) = some (8 * (g + 1) - 1) ∧
      pulls p (roundRows 1) = some (8 * (g - 1)) := by
  have hback : pulls (-1) (roundRows 0) = some 7 ∧
      pulls (-1) (roundRows 1) = some (-8) := by decide
  have hfront : pulls 0 (roundRows 0) = some 7 ∧
      pulls 0 (roundRows 1) = some (-8) := by decide
  rcases h with h | h
  · have hp : p = 8 * g + -1 := by omega
    rw [hp, pulls_shift, pulls_shift, hback.1, hback.2]
    constructor <;> (rw [Option.map_some]; congr 1; omega)
  · have hp : p = 8 * g + 0 := by omega
    rw [hp, pulls_shift, pulls_shift, hfront.1, hfront.2]
    constructor <;> (rw [Option.map_some]; congr 1; omega)

/-! ## The rotor and the statements -/

theorem run_halfStep (l : Levels) (p delay : Int) (j : Fin 8) :
    run turn (l, p) (halfStep delay j) =
      (pull p j).map fun q => ((halfStep delay j).foldl apply l, q) := by
  have hrow : pins ((halfStep delay j).foldl apply l) = pattern (some j) := rfl
  have hlast : run turn (l, p) (halfStep delay j) =
      turn ((halfStep delay j).foldl apply l, p) (.udelay delay) := by
    simp only [halfStep, setstep, List.cons_append, List.nil_append, run_cons,
      run_nil, turn, Option.bind_some, Option.bind_fun_some, List.foldl_cons,
      List.foldl_nil, apply]
  rw [hlast]
  simp only [turn, hrow, tableIndex_pattern]

theorem run_flatMap_halfStep (l : Levels) (p delay : Int)
    (js : List (Fin 8)) :
    run turn (l, p) (js.flatMap (halfStep delay)) =
      (pulls p js).map fun q =>
        ((js.flatMap (halfStep delay)).foldl apply l, q) := by
  induction js generalizing l p with
  | nil => rfl
  | cons j js ih =>
      rw [List.flatMap_cons, run_append, run_halfStep, pulls,
        List.foldlM_cons, List.foldl_append]
      cases pull p j with
      | none => rfl
      | some q => exact ih _ q

theorem round_eq (delay direction : Int) :
    round delay direction = (roundRows direction).flatMap (halfStep delay) := by
  unfold round roundRows
  split
  · rfl
  · split <;> rfl

/-- Which way a round turns the motor. -/
def sense (direction : Int) : Int :=
  if direction = 0 then 1 else if direction = 1 then -1 else 0

theorem run_round (l : Levels) {p g : Int} (delay direction : Int)
    (h : RestsAt p g) :
    ∃ l' q, run turn (l, p) (round delay direction) = some (l', q) ∧
      RestsAt q (g + sense direction) := by
  rw [round_eq, run_flatMap_halfStep]
  by_cases h0 : direction = 0
  · rw [h0, (pulls_round h).1]
    exact ⟨_, _, rfl, Or.inl rfl⟩
  · by_cases h1 : direction = 1
    · rw [h1, (pulls_round h).2]
      exact ⟨_, _, rfl, Or.inr rfl⟩
    · have hnone : roundRows direction = [] := by
        rw [roundRows, if_neg h0, if_neg h1]
      have hsense : sense direction = 0 := by
        rw [sense, if_neg h0, if_neg h1]
      rw [hnone, hsense, Int.add_zero]
      exact ⟨_, p, rfl, h⟩

theorem run_rounds (l : Levels) {p g : Int} (delay direction : Int) (n : Nat)
    (h : RestsAt p g) :
    ∃ l' q, run turn (l, p) (rounds delay direction n) = some (l', q) ∧
      RestsAt q (g + n * sense direction) := by
  induction n generalizing l p g with
  | zero =>
      refine ⟨l, p, rfl, ?_⟩
      simpa using h
  | succ n ih =>
      obtain ⟨l₁, q₁, hround, hrest₁⟩ := run_round l delay direction h
      obtain ⟨l₂, q₂, hrounds, hrest₂⟩ := ih l₁ hrest₁
      refine ⟨l₂, q₂, ?_, ?_⟩
      · rw [rounds, run_append, hround]
        exact hrounds
      · have hsum : g + ((n + 1 : Nat) : Int) * sense direction =
            g + sense direction + n * sense direction := by
          rw [Int.natCast_succ, Int.add_mul, Int.one_mul]
          omega
        rw [hsum]
        exact hrest₂

/-! ## Every sequence of calls -/

/-- The rounds of all calls, forward less backward. -/
def netRounds : List Int → Int
  | [] => 0
  | d :: ds => sense d + netRounds ds

theorem netRounds_replicate_append (n : Nat) (d : Int) (ds : List Int) :
    netRounds (List.replicate n d ++ ds) = n * sense d + netRounds ds := by
  induction n with
  | zero => simp
  | succ n ih =>
      rw [List.replicate_succ, List.cons_append, netRounds, ih,
        Int.natCast_succ, Int.add_mul, Int.one_mul]
      omega

theorem run_moveAll (l : Levels) {p g : Int} (moves : List Move)
    (h : RestsAt p g) :
    ∃ l' q, run turn (l, p) (moveAll moves) = some (l', q) ∧
      RestsAt q (g + netRounds (roundsOf moves)) := by
  induction moves generalizing l p g with
  | nil =>
      refine ⟨l, p, rfl, ?_⟩
      simpa [roundsOf, netRounds] using h
  | cons m moves ih =>
      have hmoves : moveAll (m :: moves) =
          moveDegree m.degree m.delay m.direction ++ moveAll moves :=
        List.flatMap_cons
      have hrounds : roundsOf (m :: moves) =
          List.replicate (targetRounds m.degree).toNat m.direction ++
            roundsOf moves := List.flatMap_cons
      obtain ⟨l₁, q₁, hrun, hrest⟩ := run_rounds l m.delay m.direction
        (targetRounds m.degree).toNat h
      -- switching the motor off does not move the rotor
      obtain ⟨l₂, q₂, hrun', hrest'⟩ :=
        ih ((setstep 0 0 0 0).foldl apply l₁) hrest
      refine ⟨l₂, q₂, ?_, ?_⟩
      · rw [hmoves, run_append, moveDegree, run_append, hrun]
        exact hrun'
      · rw [hrounds, netRounds_replicate_append, ← Int.add_assoc]
        exact hrest'

/-! ## Rounds and degrees -/

/-- The degrees of all calls, forward less backward. -/
def signedDegrees : List Move → Int
  | [] => 0
  | m :: moves => sense m.direction * m.degree + signedDegrees moves

/-- Each call is short of its degree by less than a round. -/
theorem netRounds_bounds {moves : List Move}
    (hdir : ∀ m ∈ moves, m.direction = 0 ∨ m.direction = 1)
    (hdeg : ∀ m ∈ moves, 0 ≤ m.degree ∧ m.degree * oneRound < 0x80000000) :
    512 * signedDegrees moves - 360 * netRounds (roundsOf moves) ≤
        359 * moves.length ∧
      -(359 * moves.length : Int) ≤
        512 * signedDegrees moves - 360 * netRounds (roundsOf moves) ∧
      ((∀ m ∈ moves, 45 ∣ m.degree) →
        512 * signedDegrees moves = 360 * netRounds (roundsOf moves)) := by
  induction moves with
  | nil => exact ⟨Int.le_refl 0, Int.le_refl 0, fun _ => rfl⟩
  | cons m moves ih =>
      obtain ⟨hle, hge, heq⟩ := ih
        (fun m' hm' => hdir m' (List.mem_cons_of_mem m hm'))
        (fun m' hm' => hdeg m' (List.mem_cons_of_mem m hm'))
      obtain ⟨hlo, hhi⟩ := hdeg m List.mem_cons_self
      have hrounds : roundsOf (m :: moves) =
          List.replicate (targetRounds m.degree).toNat m.direction ++
            roundsOf moves := List.flatMap_cons
      have hcast : ((targetRounds m.degree).toNat : Int) =
          512 * m.degree / 360 := by
        rw [targetRounds_eq hlo hhi]
        omega
      rw [signedDegrees, hrounds, netRounds_replicate_append, hcast,
        List.length_cons, Int.natCast_succ]
      have hsense : sense m.direction = 1 ∨ sense m.direction = -1 := by
        rcases hdir m List.mem_cons_self with h | h
        · exact Or.inl (by rw [h]; rfl)
        · exact Or.inr (by rw [h]; rfl)
      have hexact : 45 ∣ m.degree → 512 * m.degree = 360 *
          (512 * m.degree / 360) := by
        rintro ⟨k, hk⟩
        omega
      refine ⟨?_, ?_, fun hall => ?_⟩
      · rcases hsense with h | h <;> rw [h] <;> omega
      · rcases hsense with h | h <;> rw [h] <;> omega
      · have hm := hexact (hall m List.mem_cons_self)
        have hrest := heq fun m' hm' => hall m' (List.mem_cons_of_mem m hm')
        rcases hsense with h | h <;> rw [h] <;> omega

/-! ## The result -/

/-- A rotor that rests where the driver leaves it follows every sequence of
calls and comes to rest at such a place again, within one half-step of eight
half-steps for each round, forward less backward: reversals do not add up.
If the degrees are in range, the angle that it has turned by, of which 4096
half-steps are 360 degrees, is that of the calls up to what each call rounds
off and one half-step; with multiples of 45 it is exact up to one half-step. -/
theorem rotor_follows_moves (l : Levels) (p : Int) (moves : List Move)
    (hrest : p % 8 = 0 ∨ p % 8 = 7) :
    ∃ l' q, run turn (l, p) (moveAll moves) = some (l', q) ∧
      (q % 8 = 0 ∨ q % 8 = 7) ∧
      (q - p - 8 * netRounds (roundsOf moves)).natAbs ≤ 1 ∧
      ((∀ m ∈ moves, m.direction = 0 ∨ m.direction = 1) →
        (∀ m ∈ moves, 0 ≤ m.degree ∧ m.degree * oneRound < 0x80000000) →
        (360 * (q - p) - 4096 * signedDegrees moves).natAbs ≤
            2872 * moves.length + 360 ∧
          ((∀ m ∈ moves, 45 ∣ m.degree) →
            (360 * (q - p) - 4096 * signedDegrees moves).natAbs ≤ 360)) := by
  have hstart : RestsAt p ((p + 1) / 8) := by
    unfold RestsAt
    omega
  obtain ⟨l', q, hrun, hend⟩ := run_moveAll l moves hstart
  have hclose : (q - p - 8 * netRounds (roundsOf moves)).natAbs ≤ 1 := by
    unfold RestsAt at hstart hend
    omega
  refine ⟨l', q, hrun, ?_, hclose, fun hdir hdeg => ?_⟩
  · unfold RestsAt at hend
    omega
  · obtain ⟨hle, hge, heq⟩ := netRounds_bounds hdir hdeg
    refine ⟨by omega, fun hall => ?_⟩
    have hexact := heq hall
    omega

/-- The calls of `simple_motor_init`. -/
theorem rotor_follows_moves_init :
    ∃ l' q, run turn (fun _ => false, 0) (moveAll
        [⟨90, 3000, 0⟩, ⟨45, 3000, 1⟩, ⟨45, 3000, 1⟩, ⟨180, 3000, 0⟩]) =
        some (l', q) ∧
      (360 * (q - 0) - 4096 * 180).natAbs ≤ 360 := by
  obtain ⟨l', q, hrun, -, -, hdeg⟩ := rotor_follows_moves (fun _ => false) 0
    [⟨90, 3000, 0⟩, ⟨45, 3000, 1⟩, ⟨45, 3000, 1⟩, ⟨180, 3000, 0⟩]
    (by decide)
  exact ⟨l', q, hrun, (hdeg (by decide) (by decide)).2 (by decide)⟩

end EmbeddedSystem.Labs.StepMotor
