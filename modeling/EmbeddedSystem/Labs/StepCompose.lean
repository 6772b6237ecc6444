import EmbeddedSystem.Labs.StepPhase

/-!
# Moves that make up one move

`moveDegree` rounds the number of its rounds down, so that several calls turn
the motor a little less far than one call for the sum of their degrees, by
less than a round each.  Nothing is lost for multiples of 45 degrees, which
are 64 rounds each.

Backward and forward a call sends the same patterns in opposite order
(`moves_compose`).
-/

set_option autoImplicit false

namespace EmbeddedSystem.Labs.StepMotor

/-! ## Patterns -/

/-- Backward is forward in opposite order. -/
theorem callPatterns_reverse (degree : Int) :
    callPatterns degree 1 = (callPatterns degree 0).reverse := by
  unfold callPatterns
  rw [List.reverse_flatten, List.map_replicate, List.reverse_replicate,
    ← List.map_reverse]
  rfl

theorem length_roundRows {direction : Int}
    (h : direction = 0 ∨ direction = 1) :
    (roundRows direction).length = 8 := by
  rcases h with rfl | rfl <;> rfl

theorem length_callPatterns (degree : Int) {direction : Int}
    (h : direction = 0 ∨ direction = 1) :
    (callPatterns degree direction).length =
      8 * (targetRounds degree).toNat := by
  unfold callPatterns
  induction (targetRounds degree).toNat with
  | zero => rfl
  | succ n ih =>
      rw [List.replicate_succ, List.flatten_cons, List.length_append,
        List.length_map, length_roundRows h, ih]
      omega

theorem length_roundsOf_cons (m : Move) (moves : List Move) :
    (roundsOf (m :: moves)).length =
      (targetRounds m.degree).toNat + (roundsOf moves).length := by
  rw [roundsOf, List.flatMap_cons, List.length_append, List.length_replicate]
  rfl

/-- All patterns of several calls: eight for each round, and one for each
call that switches the motor off. -/
theorem length_latched_moveAll (l : Levels) {moves : List Move}
    (hdir : ∀ m ∈ moves, m.direction = 0 ∨ m.direction = 1) :
    (latched l (moveAll moves)).length =
      8 * (roundsOf moves).length + moves.length := by
  induction moves generalizing l with
  | nil => rfl
  | cons m moves ih =>
      have hm := hdir m List.mem_cons_self
      have hrest : ∀ m' ∈ moves, m'.direction = 0 ∨ m'.direction = 1 :=
        fun m' hm' => hdir m' (List.mem_cons_of_mem m hm')
      have hmoves : moveAll (m :: moves) =
          moveDegree m.degree m.delay m.direction ++ moveAll moves :=
        List.flatMap_cons
      rw [hmoves, latched_append, List.length_append, latched_moveDegree,
        List.length_append, length_callPatterns _ hm, ih _ hrest,
        length_roundsOf_cons, List.length_singleton, List.length_cons]
      omega

/-! ## Rounds -/

/-- The degrees of all calls together. -/
def degreeSum : List Move → Int
  | [] => 0
  | m :: moves => m.degree + degreeSum moves

theorem degreeSum_nonneg {moves : List Move}
    (hdeg : ∀ m ∈ moves, 0 ≤ m.degree) : 0 ≤ degreeSum moves := by
  induction moves with
  | nil => exact Int.le_refl 0
  | cons m moves ih =>
      have hm := hdeg m List.mem_cons_self
      have hrest := ih fun m' hm' => hdeg m' (List.mem_cons_of_mem m hm')
      rw [degreeSum]
      omega

/-- The rounds of all calls against the sum of their degrees: each call is
short of its degree by less than a round. -/
theorem roundsOf_bounds {moves : List Move}
    (hdeg : ∀ m ∈ moves, 0 ≤ m.degree)
    (hsum : degreeSum moves * oneRound < 0x80000000) :
    360 * ((roundsOf moves).length : Int) ≤ 512 * degreeSum moves ∧
      512 * degreeSum moves + moves.length ≤
        360 * (((roundsOf moves).length : Int) + moves.length) ∧
      ((∀ m ∈ moves, 45 ∣ m.degree) →
        360 * ((roundsOf moves).length : Int) = 512 * degreeSum moves) := by
  induction moves with
  | nil => exact ⟨Int.le_refl 0, Int.le_refl 0, fun _ => rfl⟩
  | cons m moves ih =>
      have hm := hdeg m List.mem_cons_self
      have hrest : ∀ m' ∈ moves, 0 ≤ m'.degree :=
        fun m' hm' => hdeg m' (List.mem_cons_of_mem m hm')
      have hnonneg := degreeSum_nonneg hrest
      rw [degreeSum] at hsum ⊢
      have hone : oneRound = 512 := rfl
      obtain ⟨hle, hlt, heq⟩ := ih hrest (by rw [hone] at hsum ⊢; omega)
      have hrounds := targetRounds_eq hm (by rw [hone] at hsum ⊢; omega)
      have hcast : ((targetRounds m.degree).toNat : Int) =
          512 * m.degree / 360 := by
        rw [hrounds]
        omega
      rw [length_roundsOf_cons, List.length_cons, Int.natCast_add, hcast,
        Int.natCast_add]
      refine ⟨by omega, by omega, fun hall => ?_⟩
      have hexact := heq fun m' hm' => hall m' (List.mem_cons_of_mem m hm')
      obtain ⟨k, hk⟩ := hall m List.mem_cons_self
      rw [hk]
      omega

/-! ## The result -/

/-- Calls that turn the motor forward, against one call for the sum of their
degrees: together they never make more rounds, they make less by fewer rounds
than there are calls, and as many if all degrees are multiples of 45.  And
before it switches the motor off, a call backward sends the patterns of the
call forward in opposite order, eight for each round. -/
theorem moves_compose (l : Levels) (delay : Int) {moves : List Move}
    (hne : moves ≠ []) (hdir : ∀ m ∈ moves, m.direction = 0)
    (hdeg : ∀ m ∈ moves, 0 ≤ m.degree)
    (hsum : degreeSum moves * oneRound < 0x80000000) :
    ((latched l (moveAll moves)).length =
        8 * (roundsOf moves).length + moves.length ∧
      (roundsOf moves).length ≤
        (roundsOf [⟨degreeSum moves, delay, 0⟩]).length ∧
      (roundsOf [⟨degreeSum moves, delay, 0⟩]).length <
        (roundsOf moves).length + moves.length ∧
      ((∀ m ∈ moves, 45 ∣ m.degree) → (roundsOf moves).length =
        (roundsOf [⟨degreeSum moves, delay, 0⟩]).length)) ∧
    ∀ degree : Int, 0 ≤ degree → degree * oneRound < 0x80000000 →
      ∃ patterns, patterns.length = 8 * (512 * degree / 360).toNat ∧
        latched l (moveDegree degree delay 0) =
          patterns ++ [pattern none] ∧
        latched l (moveDegree degree delay 1) =
          patterns.reverse ++ [pattern none] := by
  constructor
  · have hsingle : ((roundsOf [⟨degreeSum moves, delay, 0⟩]).length : Int) =
        512 * degreeSum moves / 360 := by
      have hnonneg := degreeSum_nonneg hdeg
      rw [length_roundsOf_cons, targetRounds_eq hnonneg hsum]
      show (((512 * degreeSum moves / 360).toNat + 0 : Nat) : Int) = _
      omega
    have hpos : 0 < moves.length := List.length_pos_iff.mpr hne
    obtain ⟨hle, hlt, heq⟩ := roundsOf_bounds hdeg hsum
    refine ⟨length_latched_moveAll l fun m hm => Or.inl (hdir m hm), by omega,
      by omega, fun hall => ?_⟩
    have hexact := heq hall
    omega
  · intro degree hlo hhi
    refine ⟨callPatterns degree 0, ?_, latched_moveDegree l degree delay 0, ?_⟩
    · rw [length_callPatterns degree (Or.inl rfl), targetRounds_eq hlo hhi]
    · rw [latched_moveDegree, callPatterns_reverse]

/-- The two calls of `simple_motor_init` that turn the motor by 45 degrees,
here forward, are one call by 90 degrees. -/
theorem moves_compose_twice :
    (roundsOf [⟨45, 3000, 0⟩, ⟨45, 3000, 0⟩]).length =
        (roundsOf [⟨90, 3000, 0⟩]).length ∧
      ∃ patterns, patterns.length = 1024 ∧
        latched (fun _ => false) (moveDegree 90 3000 0) =
          patterns ++ [pattern none] := by
  obtain ⟨hmoves, hcall⟩ := @moves_compose (fun _ => false) 3000
    [⟨45, 3000, 0⟩, ⟨45, 3000, 0⟩] (by decide) (by decide) (by decide)
    (by decide)
  obtain ⟨patterns, hlen, hforward, -⟩ := hcall 90 (by decide) (by decide)
  exact ⟨hmoves.2.2.2 (by decide), patterns, hlen, hforward⟩

end EmbeddedSystem.Labs.StepMotor
