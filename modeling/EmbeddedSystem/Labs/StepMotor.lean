import EmbeddedSystem.Verified.Transition

/-!
# The coils of the stepper motor in `ch9_mod_202111360.c`

`moveDegree` turns the motor by setting four pins half-step by half-step,
according to the tables `blue`, `pink`, `yellow` and `orange`, and switches
all of them off at the end.  A call is modelled by the statements it executes
that reach the outside, in their order, so that the pins can be looked at
after every single `gpio_set_value`.

PIN1 and PIN3 drive opposite coils, and so do PIN2 and PIN4.  `setstep` sets
the pins one at a time, but between two half-steps that follow each other
there is always one pin of each pair that stays low (`setstep_carries`).
-/

set_option autoImplicit false

namespace EmbeddedSystem.Labs.StepMotor

open EmbeddedSystem.Verified.Transition

/-! ## Constants -/

def pin1 : Nat := 6
def pin2 : Nat := 13
def pin3 : Nat := 19
def pin4 : Nat := 26

/-- `STEPS` -/
abbrev steps : Nat := 8

/-- `ONEROUND` -/
def oneRound : Int := 512

def blue : Vector Int 8 := #v[1, 1, 0, 0, 0, 0, 0, 1]
def pink : Vector Int 8 := #v[0, 1, 1, 1, 0, 0, 0, 0]
def yellow : Vector Int 8 := #v[0, 0, 0, 1, 1, 1, 0, 0]
def orange : Vector Int 8 := #v[0, 0, 0, 0, 0, 1, 1, 1]

/-! ## Functions -/

/-- A statement that reaches the outside. -/
inductive Op where
  | gpioSetValue (pin : Nat) (value : Int)
  | udelay (usecs : Int)
deriving DecidableEq, Repr

def setstep (p1 p2 p3 p4 : Int) : List Op :=
  [ .gpioSetValue pin1 p1
  , .gpioSetValue pin2 p2
  , .gpioSetValue pin3 p3
  , .gpioSetValue pin4 p4 ]

/-- The body of both inner loops. -/
def halfStep (delay : Int) (j : Fin 8) : List Op :=
  setstep blue[j] pink[j] yellow[j] orange[j] ++ [.udelay delay]

/-- One turn of the outer loop. -/
def round (delay direction : Int) : List Op :=
  if direction = 0 then
    -- forward
    (List.finRange steps).flatMap (halfStep delay)
  else if direction = 1 then
    -- backward
    (List.finRange steps).reverse.flatMap (halfStep delay)
  else []

/-- The outer loop. -/
def rounds (delay direction : Int) : Nat → List Op
  | 0 => []
  | n + 1 => round delay direction ++ rounds delay direction n

/-- The value that a 32-bit `int` has after a multiplication. -/
def wrap32 (n : Int) : Int := n.bmod 0x100000000

/-- `target_rounds`; the division truncates. -/
def targetRounds (degree : Int) : Int := (wrap32 (degree * oneRound)).tdiv 360

def moveDegree (degree delay direction : Int) : List Op :=
  rounds delay direction (targetRounds degree).toNat ++ setstep 0 0 0 0

/-- The arguments of a call of `moveDegree`. -/
structure Move where
  degree : Int
  delay : Int
  direction : Int
deriving DecidableEq, Repr

/-- A sequence of calls. -/
def moveAll (moves : List Move) : List Op :=
  moves.flatMap fun m => moveDegree m.degree m.delay m.direction

/-! ## Pins -/

/-- The levels of all GPIOs. -/
abbrev Levels := Nat → Bool

/-- What a statement does to the levels. -/
def apply (l : Levels) : Op → Levels
  | .gpioSetValue pin value => fun n => if n = pin then value ≠ 0 else l n
  | .udelay _ => l

def step (l : Levels) (op : Op) : Option Levels := some (apply l op)

/-- No two opposing coils are energised together. -/
def NotOpposed (l : Levels) : Prop :=
  ¬ (l pin1 = true ∧ l pin3 = true) ∧ ¬ (l pin2 = true ∧ l pin4 = true)

def AllLow (l : Levels) : Prop :=
  l pin1 = false ∧ l pin2 = false ∧ l pin3 = false ∧ l pin4 = false

/-- The levels of the four pins. -/
def pins (l : Levels) : Bool × Bool × Bool × Bool :=
  (l pin1, l pin2, l pin3, l pin4)

/-- `NotOpposed` on the levels of the four pins. -/
def notOpposed : Bool × Bool × Bool × Bool → Bool
  | (v1, v2, v3, v4) => !(v1 && v3) && !(v2 && v4)

theorem notOpposed_iff (l : Levels) :
    NotOpposed l ↔ notOpposed (pins l) = true := by
  unfold NotOpposed pins notOpposed
  cases l pin1 <;> cases l pin2 <;> cases l pin3 <;> cases l pin4 <;> decide

/-- What the pins of a half-step look like; `none` is the motor switched
off. -/
def pattern : Option (Fin 8) → Bool × Bool × Bool × Bool
  | none => (false, false, false, false)
  | some j => (blue[j] ≠ 0, pink[j] ≠ 0, yellow[j] ≠ 0, orange[j] ≠ 0)

theorem pins_eq_off_iff (l : Levels) : pins l = pattern none ↔ AllLow l := by
  simp [pins, pattern, AllLow]

/-! ## One `setstep` -/

/-- The pins while they change from `u` to `v`, one after another. -/
def transit (u v : Bool × Bool × Bool × Bool) :
    List (Bool × Bool × Bool × Bool) :=
  let (u1, u2, u3, u4) := u
  let (v1, v2, v3, v4) := v
  [(u1, u2, u3, u4), (v1, u2, u3, u4), (v1, v2, u3, u4), (v1, v2, v3, u4),
    (v1, v2, v3, v4)]

/-- Nothing opposed is energised on the way from one pattern to the next. -/
def Follows (a b : Option (Fin 8)) : Prop :=
  ∀ u ∈ transit (pattern a) (pattern b), notOpposed u = true

instance (a b : Option (Fin 8)) : Decidable (Follows a b) :=
  inferInstanceAs (Decidable (∀ u ∈ _, _))

/-- The statements take the pins from pattern `a` to pattern `b`, and at no
point on the way are two opposing coils energised. -/
def Carries (a : Option (Fin 8)) (ops : List Op) (b : Option (Fin 8)) : Prop :=
  ∀ l, pins l = pattern a →
    ∃ l', run step l ops = some l' ∧ pins l' = pattern b ∧
      Throughout step NotOpposed l ops

/-- `setstep` goes through the states of `transit`. -/
theorem setstep_carries {a b : Option (Fin 8)} (h : Follows a b)
    {p1 p2 p3 p4 : Int}
    (hb : (decide (p1 ≠ 0), decide (p2 ≠ 0), decide (p3 ≠ 0),
      decide (p4 ≠ 0)) = pattern b) :
    Carries a (setstep p1 p2 p3 p4) b := by
  intro l hl
  unfold Follows at h
  rw [← hb, ← hl] at h
  refine ⟨_, rfl, hb, ?_⟩
  rw [setstep, throughout_cons rfl, throughout_cons rfl, throughout_cons rfl,
    throughout_cons rfl, throughout_nil]
  simp only [notOpposed_iff]
  refine ⟨h _ ?_, h _ ?_, h _ ?_, h _ ?_, h _ ?_⟩
  · exact List.mem_cons_self
  · exact List.mem_of_getElem? (i := 1) rfl
  · exact List.mem_of_getElem? (i := 2) rfl
  · exact List.mem_of_getElem? (i := 3) rfl
  · exact List.mem_of_getElem? (i := 4) rfl

/-- No single pattern energises opposing coils. -/
theorem notOpposed_pattern (a : Option (Fin 8)) :
    notOpposed (pattern a) = true := by
  cases a with
  | none => rfl
  | some j =>
      revert j
      decide

theorem follows_off (a : Option (Fin 8)) : Follows a none := by
  cases a with
  | none => decide
  | some j =>
      revert j
      decide

theorem Carries.nil (a : Option (Fin 8)) : Carries a [] a := by
  intro l hl
  refine ⟨l, rfl, hl, ?_⟩
  rw [throughout_nil, notOpposed_iff, hl]
  exact notOpposed_pattern a

theorem Carries.append {a b c : Option (Fin 8)} {xs ys : List Op}
    (hxs : Carries a xs b) (hys : Carries b ys c) :
    Carries a (xs ++ ys) c := by
  intro l hl
  obtain ⟨m, hm, hpm, hall⟩ := hxs l hl
  obtain ⟨n, hn, hpn, hrest⟩ := hys m hpm
  refine ⟨n, ?_, hpn, hall.append hm hrest⟩
  rw [run_append, hm]
  exact hn

/-! ## Rounds -/

theorem halfStep_carries {a : Option (Fin 8)} (delay : Int) {j : Fin 8}
    (h : Follows a (some j)) : Carries a (halfStep delay j) (some j) := by
  apply (setstep_carries h rfl).append
  -- the delay changes nothing
  intro l hl
  have hok := notOpposed_pattern (some j)
  refine ⟨l, rfl, hl, ?_⟩
  rw [throughout_cons rfl, throughout_nil]
  show NotOpposed l ∧ NotOpposed l
  rw [notOpposed_iff, hl]
  exact ⟨hok, hok⟩

/-- The pattern that a round in this direction ends with. -/
def lastPattern (direction : Int) : Option (Fin 8) :=
  if direction = 0 then some 7 else if direction = 1 then some 0 else none

/-- Half-steps that may follow each other. -/
def Chained : Option (Fin 8) → List (Fin 8) → Prop
  | _, [] => True
  | a, j :: js => Follows a (some j) ∧ Chained (some j) js

instance decidableChained : ∀ a js, Decidable (Chained a js)
  | _, [] => inferInstanceAs (Decidable True)
  | a, j :: js =>
      have : Decidable (Chained (some j) js) := decidableChained (some j) js
      inferInstanceAs (Decidable (Follows a (some j) ∧ Chained (some j) js))

theorem Chained.carries {a : Option (Fin 8)} {j : Fin 8} {js : List (Fin 8)}
    (delay : Int) (h : Chained a (j :: js)) :
    Carries a ((j :: js).flatMap (halfStep delay)) ((j :: js).getLast?) := by
  induction js generalizing a j with
  | nil =>
      rw [List.flatMap_cons, List.flatMap_nil, List.append_nil]
      exact halfStep_carries delay h.1
  | cons k ks ih =>
      rw [List.flatMap_cons, List.getLast?_cons_cons]
      exact (halfStep_carries delay h.1).append (ih h.2)

/-- A round starts from where the round before it ended, or from off. -/
theorem round_carries (delay : Int) {direction : Int} {a : Option (Fin 8)}
    (ha : a = none ∨ a = lastPattern direction) :
    Carries a (round delay direction) (lastPattern direction) := by
  have hforward : Chained none (List.finRange steps) ∧
      Chained (some 7) (List.finRange steps) := by decide
  have hbackward : Chained none (List.finRange steps).reverse ∧
      Chained (some 0) (List.finRange steps).reverse := by decide
  unfold lastPattern at ha ⊢
  unfold round
  by_cases h0 : direction = 0
  · rw [if_pos h0] at ha ⊢
    rw [if_pos h0]
    have hchain : Chained a (List.finRange steps) := by
      rcases ha with rfl | rfl
      · exact hforward.1
      · exact hforward.2
    exact Chained.carries delay hchain
  · rw [if_neg h0] at ha ⊢
    rw [if_neg h0]
    by_cases h1 : direction = 1
    · rw [if_pos h1] at ha ⊢
      rw [if_pos h1]
      have hchain : Chained a (List.finRange steps).reverse := by
        rcases ha with rfl | rfl
        · exact hbackward.1
        · exact hbackward.2
      exact Chained.carries delay hchain
    · rw [if_neg h1] at ha ⊢
      rw [if_neg h1]
      have hoff : a = none := by
        rcases ha with rfl | rfl <;> rfl
      rw [hoff]
      exact Carries.nil none

theorem rounds_carry (delay direction : Int) (n : Nat)
    {a : Option (Fin 8)} (ha : a = none ∨ a = lastPattern direction) :
    ∃ b, Carries a (rounds delay direction n) b := by
  induction n generalizing a with
  | zero => exact ⟨a, Carries.nil a⟩
  | succ n ih =>
      obtain ⟨b, hb⟩ := ih (Or.inr rfl)
      exact ⟨b, (round_carries delay ha).append hb⟩

/-! ## Whole moves -/

/-- A move starts with the motor switched off and switches it off again. -/
theorem moveDegree_carries (degree delay direction : Int) :
    Carries none (moveDegree degree delay direction) none := by
  obtain ⟨b, hb⟩ := rounds_carry delay direction
    (targetRounds degree).toNat (Or.inl rfl)
  exact hb.append (setstep_carries (follows_off b) rfl)

theorem moveAll_carries (moves : List Move) :
    Carries none (moveAll moves) none := by
  induction moves with
  | nil => exact Carries.nil none
  | cons m moves ih =>
      exact (moveDegree_carries m.degree m.delay m.direction).append ih

/-- For every sequence of moves from all pins low: after every single
`gpio_set_value` no two opposing coils are energised together, and all pins
are low after every move. -/
theorem coils_not_opposed (moves : List Move) {l : Levels} (hl : AllLow l) :
    Throughout step NotOpposed l (moveAll moves) ∧
      ∀ done rest, moves = done ++ rest →
        ∃ l', run step l (moveAll done) = some l' ∧ AllLow l' := by
  have hoff := (pins_eq_off_iff l).mpr hl
  constructor
  · obtain ⟨-, -, -, hall⟩ := moveAll_carries moves l hoff
    exact hall
  · intro done rest _
    obtain ⟨l', hrun, hpins, -⟩ := moveAll_carries done l hoff
    exact ⟨l', hrun, (pins_eq_off_iff l').mp hpins⟩

/-- The moves of `simple_motor_init`. -/
theorem coils_not_opposed_init :
    Throughout step NotOpposed (fun _ => false)
        (moveAll [⟨90, 3000, 0⟩, ⟨45, 3000, 1⟩, ⟨45, 3000, 1⟩, ⟨180, 3000, 0⟩]) ∧
      ∃ l', run step (fun _ => false) (moveAll [⟨90, 3000, 0⟩]) = some l' ∧
        AllLow l' := by
  have hlow : AllLow fun _ => false := ⟨rfl, rfl, rfl, rfl⟩
  obtain ⟨hall, hend⟩ := coils_not_opposed
    [⟨90, 3000, 0⟩, ⟨45, 3000, 1⟩, ⟨45, 3000, 1⟩, ⟨180, 3000, 0⟩] hlow
  exact ⟨hall, hend [⟨90, 3000, 0⟩] _ rfl⟩

end EmbeddedSystem.Labs.StepMotor
