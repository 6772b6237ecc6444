import EmbeddedSystem.Verified.Programs
import Mathlib.Data.List.Basic

/-!
# `simple_rwlock_app.c` and `simple_rcu_app.c`

The two programs differ in the name of the device.  A process is started to
read or to write; it makes its ioctl `n` times, and a writer writes
`1, 2, ..., n`.

Any number of processes run at the same time, and one of them writes.  The
driver is known by what the program sees of it (`Driver`), with a log of its
sections: a read prints twice what the last write in front of its section
wrote.  As the log has the writes in the order in which the writer makes them
(`writes_eq`), that is the number of writes in front (`front_value`).
-/

set_option autoImplicit false

namespace EmbeddedSystem.Labs.ReadWriteApp

open EmbeddedSystem.Verified
open EmbeddedSystem.Verified.Transition
open EmbeddedSystem.Verified.CallPool
open EmbeddedSystem.Verified.SectionLog
open EmbeddedSystem.Verified.Programs

/-! ## The program -/

/-- `READ` and `WRITE` -/
def opRead : Int := 1
def opWrite : Int := 2

/-- The ioctls of `main`; `op` and `n` are the values of its arguments. -/
def main {K : Type} (read : K) (write : BitVec 64 → K) (op n : Int) : List K :=
  if op = opRead then (List.range' 1 n.toNat).map fun _ => read
  else if op = opWrite then
    (List.range' 1 n.toNat).map fun i => write (BitVec.ofNat 64 i)
  else []

/-! ## The driver -/

/-- What a call was made for. -/
inductive Purpose where
  | read
  | write (arg : BitVec 64)
  | other
deriving DecidableEq, Repr

/-- The argument of a write. -/
def Purpose.arg? : Purpose → Option (BitVec 64)
  | .write arg => some arg
  | _ => none

structure Driver (G L K O S : Type) where
  enter : K → L
  body : G → Nat → L → O → Option (G × L)
  /-- the process that made the call goes on -/
  returned : L → Bool
  purpose : L → Purpose
  log : G → List S
  who : S → Nat
  what : S → Purpose
  /-- the call has its section in the log -/
  entered : L → Bool
  /-- what a read that has returned has printed -/
  printed : L → Option (List (BitVec 64))
  read : K
  write : BitVec 64 → K

/-- What the programs rely on. -/
structure Driver.Lawful {G L K O S : Type} (D : Driver G L K O S) : Prop where
  steady : Steady D.body D.returned D.purpose
  logged : Logged D.enter D.body D.purpose D.log D.who D.what D.entered
  enter_read : D.purpose (D.enter D.read) = .read
  enter_write : ∀ arg, D.purpose (D.enter (D.write arg)) = .write arg
  entered : ∀ l, D.purpose l ≠ .other → D.returned l = true →
    D.entered l = true

variable {G L K O S : Type}

/-- The ioctls of the processes with these arguments. -/
def Driver.programs (D : Driver G L K O S) (args : List (Int × Int)) :
    List (List K) :=
  args.map fun a => main D.read D.write a.1 a.2

def Driver.step (D : Driver G L K O S) :
    System G L K → Action O → Option (System G L K) :=
  Programs.step D.enter D.body D.returned

/-- Process `w` was started to write `n` times, the others were not started to
write. -/
structure OneWriter (args : List (Int × Int)) (w : Nat) (n : Int) : Prop where
  writer : args[w]? = some (opWrite, n)
  others : ∀ p a, args[p]? = some a → p ≠ w → a.1 ≠ opWrite

abbrev Driver.Running (D : Driver G L K O S) (args : List (Int × Int))
    (s : System G L K) : Prop :=
  Programmed D.enter D.returned D.purpose D.log D.who D.what D.entered
    (D.programs args) s

section Running

variable {D : Driver G L K O S} {args : List (Int × Int)}

theorem Driver.Lawful.running (hD : D.Lawful) {g : G} (hg : D.log g = [])
    {as : List (Action O)} {s : System G L K}
    (hrun : run D.step (boot g (D.programs args)) as = some s) :
    D.Running args s :=
  run_induct (P := D.Running args)
    (fun _ _ _ h hst => h.step hD.steady hD.logged hst)
    (programmed_boot hg) hrun

theorem main_write (read : K) (write : BitVec 64 → K) (n : Int) :
    main read write opWrite n =
      (List.range' 1 n.toNat).map fun i => write (BitVec.ofNat 64 i) :=
  rfl

/-- A process that was not started to write only reads. -/
theorem Driver.Lawful.purpose_read (hD : D.Lawful) {op n : Int} {k : K}
    (hop : op ≠ opWrite) (hk : k ∈ main D.read D.write op n) :
    D.purpose (D.enter k) = .read := by
  unfold main at hk
  rw [if_neg hop] at hk
  split at hk
  · obtain ⟨i, -, rfl⟩ := List.mem_map.mp hk
    exact hD.enter_read
  · cases hk

/-- The program makes no other requests than reads and writes. -/
theorem Driver.Lawful.purpose_main (hD : D.Lawful) {op n : Int} {k : K}
    (hk : k ∈ main D.read D.write op n) :
    D.purpose (D.enter k) ≠ .other := by
  by_cases hop : op = opWrite
  · subst hop
    rw [main_write] at hk
    obtain ⟨i, -, rfl⟩ := List.mem_map.mp hk
    rw [hD.enter_write]
    exact fun h => nomatch h
  · rw [hD.purpose_read hop hk]
    exact fun h => nomatch h

/-- Every call is one of a process, which had it in its program. -/
theorem Driver.Running.call_of {s : System G L K} (h : D.Running args s)
    {i : Nat} {l : L} (hl : s.pool.calls[i]? = some l) :
    ∃ (p : Nat) (q : Proc K) (a : Int × Int), s.procs[p]? = some q ∧
      args[p]? = some a ∧ i ∈ q.made ∧
      ∃ k ∈ main D.read D.write a.1 a.2,
        D.purpose l = D.purpose (D.enter k) := by
  obtain ⟨p, q, hq, hmade⟩ := h.faithful.maker i (lookup_lt hl)
  have hlt := lookup_lt hq
  rw [h.faithful.length, Driver.programs, List.length_map] at hlt
  have ha : args[p]? = some args[p] := List.getElem?_eq_getElem hlt
  have hfollows := h.faithful.follows p q _ hq
    (lookup_map (fun a : Int × Int => main D.read D.write a.1 a.2) ha)
  obtain ⟨k, hk, l', hl', hkind⟩ := hfollows.kind_of hmade
  rw [hl, Option.some.injEq] at hl'
  exact ⟨p, q, args[p], hq, ha, hmade, k, hk, by rw [hl', hkind]⟩

/-- So is every section. -/
theorem Driver.Running.section_of {s : System G L K} (h : D.Running args s)
    {x : S} (hx : x ∈ D.log s.pool.shared) :
    ∃ (p : Nat) (q : Proc K) (a : Int × Int), s.procs[p]? = some q ∧
      args[p]? = some a ∧ D.who x ∈ q.made ∧
      ∃ k ∈ main D.read D.write a.1 a.2,
        D.what x = D.purpose (D.enter k) := by
  obtain ⟨l, hl, hkind⟩ := Option.map_eq_some_iff.mp (h.inLog.kinds x hx)
  rw [← hkind]
  exact h.call_of hl

/-- A writer that waits for no call has all its writes behind it, and nobody
else writes. -/
theorem Driver.Running.writes_returned (hD : D.Lawful) {w : Nat} {n : Int}
    (hw : OneWriter args w n) {s : System G L K} (h : D.Running args s)
    {q : Proc K} (hq : s.procs[w]? = some q)
    (hfree : Proc.free D.returned s.pool.calls q = true) {i : Nat} {l : L}
    {arg : BitVec 64} (hl : s.pool.calls[i]? = some l)
    (hwrite : D.purpose l = .write arg) : D.returned l = true := by
  obtain ⟨p, q', a, hq', ha, hmade, k, hk, hkind⟩ := h.call_of hl
  by_cases hp : p = w
  · subst hp
    rw [hq, Option.some.injEq] at hq'
    subst hq'
    have hprogram : (D.programs args)[p]? = some _ :=
      lookup_map (fun a : Int × Int => main D.read D.write a.1 a.2) ha
    have hfollows := h.faithful.follows p q _ hq hprogram
    have hret : Programs.returned D.returned s.pool.calls i = true := by
      rcases List.eq_nil_or_concat q.made with hnil | ⟨front, last, hc⟩
      · rw [hnil] at hmade
        cases hmade
      · rw [List.concat_eq_append] at hc
        rw [hc] at hmade
        rcases List.mem_append.mp hmade with hfront | hlast
        · apply hfollows.past
          rw [hc, List.dropLast_concat]
          exact hfront
        · rw [List.mem_singleton.mp hlast]
          simpa [Proc.free, hc] using hfree
    rw [Programs.returned, hl, Option.any_some] at hret
    exact hret
  · rw [hkind, hD.purpose_read (hw.others p a ha hp) hk] at hwrite
    cases hwrite

/-! ## The writes in the log -/

/-- The arguments of the writes in a log. -/
def Driver.argsOf (D : Driver G L K O S) (log : List S) : List (BitVec 64) :=
  log.filterMap fun x => (D.what x).arg?

/-- The last of them, 0 if there is none. -/
def Driver.lastArg (D : Driver G L K O S) (log : List S) : BitVec 64 :=
  (D.argsOf log).getLast?.getD 0

/-- The writes in the log are a first part of `1, 2, ..., n`, with every call
of the writer that has returned. -/
theorem Driver.Running.writes_eq (hD : D.Lawful) {w : Nat} {n : Int}
    (hw : OneWriter args w n) {s : System G L K} (h : D.Running args s)
    {q : Proc K} (hq : s.procs[w]? = some q) :
    ∃ m, q.completed D.returned s.pool.calls ≤ m ∧ m ≤ q.made.length ∧
      m ≤ n.toNat ∧ D.argsOf (D.log s.pool.shared) =
        (List.range' 1 m).map (BitVec.ofNat 64) := by
  have hprogram : (D.programs args)[w]? = some _ :=
    lookup_map (fun a : Int × Int => main D.read D.write a.1 a.2) hw.writer
  obtain ⟨m, hge, hle, hkinds⟩ := h.program_order hq hprogram
    fun k hk l hkind hret =>
      hD.entered l (by rw [hkind]; exact hD.purpose_main hk) hret
  have hn : q.made.length ≤ n.toNat := by
    have hlen := (h.faithful.follows w q _ hq hprogram).length
    rw [main_write, List.length_map, List.length_range'] at hlen
    exact hlen
  refine ⟨m, hge, hle, Nat.le_trans hle hn, ?_⟩
  -- only the writer writes
  have hwriter : D.argsOf (D.log s.pool.shared) =
      D.argsOf (sectionsOf D.who q.made (D.log s.pool.shared)) := by
    rw [Driver.argsOf, Driver.argsOf, sectionsOf, List.filterMap_filter]
    apply List.filterMap_congr
    intro x hx
    obtain ⟨p, q', a, hq', ha, hmade, k, hk, hkind⟩ := h.section_of hx
    by_cases hp : p = w
    · subst hp
      rw [hq, Option.some.injEq] at hq'
      rw [hq', if_pos (List.contains_iff_mem.mpr hmade)]
    · rw [hkind, hD.purpose_read (hw.others p a ha hp) hk]
      split <;> rfl
  have hmap : D.argsOf (sectionsOf D.who q.made (D.log s.pool.shared)) =
      ((sectionsOf D.who q.made (D.log s.pool.shared)).map
        D.what).filterMap Purpose.arg? := by
    rw [List.filterMap_map]
    rfl
  rw [hwriter, hmap, hkinds, main_write, ← List.map_take, List.map_map,
    List.filterMap_map, List.take_range'_of_length_ge (Nat.le_trans hle hn),
    ← List.filterMap_eq_map]
  apply List.filterMap_congr
  intro i _
  show (D.purpose (D.enter (D.write (BitVec.ofNat 64 i)))).arg? = _
  rw [hD.enter_write]
  rfl

/-- In front of a section the last write is number `k` of the writes
`1, 2, ..., k`. -/
theorem Driver.front_value {before rest : List S} {m : Nat}
    (h : D.argsOf (before ++ rest) =
      (List.range' 1 m).map (BitVec.ofNat 64)) :
    (D.argsOf before).length ≤ m ∧
      D.lastArg before = BitVec.ofNat 64 (D.argsOf before).length := by
  rw [Driver.argsOf, List.filterMap_append] at h
  obtain ⟨xs, ys, hsplit, hxs, -⟩ := List.map_eq_append_iff.mp h.symm
  obtain ⟨k, hk, hxs', -⟩ := List.range'_eq_append_iff.mp hsplit
  have hargs : D.argsOf before = (List.range' 1 k).map (BitVec.ofNat 64) := by
    rw [← hxs', hxs]
    rfl
  have hlen : (D.argsOf before).length = k := by
    rw [hargs, List.length_map, List.length_range']
  refine ⟨by omega, ?_⟩
  rw [Driver.lastArg, hlen, hargs, List.getLast?_map, List.getLast?_range']
  by_cases hzero : k = 0
  · rw [if_pos hzero, hzero]
    rfl
  · rw [if_neg hzero, Option.map_some, Option.getD_some,
      Nat.add_sub_cancel_left]

/-- More sections in front, more writes. -/
theorem Driver.args_le (xs ys : List S) :
    (D.argsOf xs).length ≤ (D.argsOf (xs ++ ys)).length := by
  rw [Driver.argsOf, Driver.argsOf, List.filterMap_append, List.length_append]
  exact Nat.le_add_right _ _

end Running

/-! ## What the readers print -/

/-- Call `i` is a read that has returned, and it printed `v` twice. -/
def Printed (printed : L → Option (List (BitVec 64))) (s : System G L K)
    (i v : Nat) : Prop :=
  ∃ l vs, s.pool.calls[i]? = some l ∧ printed l = some vs ∧
    vs.map BitVec.toNat = [v, v]

/-- What the readers print up to `t`, with `s` a state before it; `w` is the
writer. -/
structure InStep (printed : L → Option (List (BitVec 64)))
    (returned : L → Bool) (w : Nat) (s t : System G L K) : Prop where
  /-- every read prints 0 or a value that was written -/
  answered : ∀ i l, t.pool.calls[i]? = some l → (printed l).isSome = true →
    ∃ v q, Printed printed t i v ∧ t.procs[w]? = some q ∧ v ≤ q.made.length
  /-- the values of one process do not go back -/
  forward : ∀ (p : Nat) (q : Proc K) (i j u v : Nat),
    t.procs[p]? = some q → i ∈ q.made → j ∈ q.made → i < j →
    Printed printed t i u → Printed printed t j v → u ≤ v
  /-- a read made after `s` prints no value older than the writes that had
  returned then -/
  upToDate : ∀ (q : Proc K) (i v : Nat), s.procs[w]? = some q →
    s.pool.calls.length ≤ i → Printed printed t i v →
    q.completed returned s.pool.calls ≤ v

theorem Printed.unique {printed : L → Option (List (BitVec 64))}
    {s : System G L K} {i u v : Nat} (hu : Printed printed s i u)
    (hv : Printed printed s i v) : u = v := by
  obtain ⟨l, vs, hl, hvs, hmap⟩ := hu
  obtain ⟨l', vs', hl', hvs', hmap'⟩ := hv
  rw [hl, Option.some.injEq] at hl'
  subst hl'
  rw [hvs, Option.some.injEq] at hvs'
  subst hvs'
  rw [hmap, List.cons.injEq] at hmap'
  exact hmap'.1

/-- A read prints twice what was written last before its section. -/
def Driver.ReadsLast (D : Driver G L K O S) (t : System G L K) : Prop :=
  ∀ i l vs, t.pool.calls[i]? = some l → D.printed l = some vs →
    ∃ before x, Placed D.who before x (D.log t.pool.shared) ∧ D.who x = i ∧
      vs = [D.lastArg before, D.lastArg before]

section InStep

variable {D : Driver G L K O S} {args : List (Int × Int)} {w : Nat} {n : Int}

/-- So it prints how many writes there are. -/
theorem Driver.Running.counts (hD : D.Lawful) (hw : OneWriter args w n)
    (hn : n < 0x80000000) {t : System G L K} (ht : D.Running args t)
    (hlast : D.ReadsLast t) {i : Nat} {l : L} {vs : List (BitVec 64)}
    (hl : t.pool.calls[i]? = some l) (hvs : D.printed l = some vs) :
    ∃ before x, Placed D.who before x (D.log t.pool.shared) ∧ D.who x = i ∧
      Printed D.printed t i (D.argsOf before).length ∧
      ∃ q, t.procs[w]? = some q ∧
        (D.argsOf before).length ≤ q.made.length := by
  obtain ⟨before, x, hplaced, hwho, htwice⟩ := hlast i l vs hl hvs
  obtain ⟨rest, hsplit⟩ := hplaced.front
  have hlt : w < t.procs.length := by
    rw [ht.faithful.length, Driver.programs, List.length_map]
    exact lookup_lt hw.writer
  have hq := List.getElem?_eq_getElem hlt
  obtain ⟨m, -, hle, hm, hargs⟩ := ht.writes_eq hD hw hq
  rw [hsplit] at hargs
  obtain ⟨hcount, hvalue⟩ := Driver.front_value hargs
  refine ⟨before, x, hplaced, hwho, ⟨l, vs, hl, hvs, ?_⟩, _, hq,
    Nat.le_trans hcount hle⟩
  have hmod : (D.argsOf before).length < 0x10000000000000000 := by omega
  rw [htwice, hvalue]
  simp only [List.map_cons, List.map_nil, BitVec.toNat_ofNat,
    Nat.mod_eq_of_lt hmod]

/-- If the driver answers with what was written last, the readers keep in step
with the writer. -/
theorem Driver.Running.inStep (hD : D.Lawful) (hw : OneWriter args w n)
    (hn : n < 0x80000000) {s t : System G L K} {bs : List (Action O)}
    (hs : D.Running args s) (ht : D.Running args t)
    (hbs : run D.step s bs = some t) (hlast : D.ReadsLast t) :
    InStep D.printed D.returned w s t := by
  -- what a read has printed is the count of the writes in front of it
  have hcount : ∀ (i v : Nat), Printed D.printed t i v → ∃ before x,
      Placed D.who before x (D.log t.pool.shared) ∧ D.who x = i ∧
        v = (D.argsOf before).length := by
    rintro i v ⟨l, vs, hl, hvs, hmap⟩
    obtain ⟨before, x, hplaced, hwho, hprints, -⟩ :=
      ht.counts hD hw hn hlast hl hvs
    exact ⟨before, x, hplaced, hwho,
      Printed.unique ⟨l, vs, hl, hvs, hmap⟩ hprints⟩
  refine
    { answered := fun i l hl hsome => ?_
      forward := fun p q i j u v hq hi hj hij hu hv => ?_
      upToDate := fun q i v hq hi hv => ?_ }
  · obtain ⟨vs, hvs⟩ := Option.isSome_iff_exists.mp hsome
    obtain ⟨before, x, -, -, hprints, q, hq, hle⟩ :=
      ht.counts hD hw hn hlast hl hvs
    exact ⟨_, q, hprints, hq, hle⟩
  · obtain ⟨before, x, hplaced, hx, rfl⟩ := hcount i u hu
    obtain ⟨before', y, hplaced', hy, rfl⟩ := hcount j v hv
    have hne : D.who x ≠ D.who y := by omega
    rcases hplaced.order hplaced' hne with ⟨mid, hmid⟩ | ⟨mid, after, -, hlog⟩
    · rw [hmid]
      exact Driver.args_le before _
    · have hlt := lookup_lt hq
      rw [ht.faithful.length] at hlt
      have hsorted := (ht.faithful.follows p q _ hq
        (List.getElem?_eq_getElem hlt)).sorted
      have hback := (ht.inOrder p q hq).lt_of_before hsorted hlog
        (hy ▸ hj) (hx ▸ hi)
      omega
  · obtain ⟨before, x, ⟨after, hsplit, -⟩, hx, rfl⟩ := hcount i v hv
    obtain ⟨m, hge, -, -, hargs⟩ := hs.writes_eq hD hw hq
    obtain ⟨mvs, hmvs⟩ := pool_run hbs
    obtain ⟨later, hlater⟩ := hD.logged.extends hmvs
    have hlog : before ++ x :: after = D.log s.pool.shared ++ later :=
      hsplit.symm.trans hlater
    -- the read has no section in `s` yet
    have hnew : x ∉ D.log s.pool.shared := by
      intro hmem
      obtain ⟨l, hl, -⟩ := Option.map_eq_some_iff.mp
        (hs.inLog.kinds x hmem)
      have hlt := lookup_lt hl
      omega
    have hm : (D.argsOf (D.log s.pool.shared)).length = m := by
      rw [hargs, List.length_map, List.length_range']
    rcases List.append_eq_append_iff.mp hlog with
      ⟨mid, hfront, hrest⟩ | ⟨mid, hfront, -⟩
    · cases mid with
      | nil =>
          rw [List.append_nil] at hfront
          rw [← hfront]
          omega
      | cons y mid =>
          rw [List.cons_append, List.cons.injEq] at hrest
          rw [hfront, ← hrest.1] at hnew
          exact absurd (List.mem_append_right _ List.mem_cons_self) hnew
    · have hle := Driver.args_le (D := D) (D.log s.pool.shared) mid
      rw [← hfront] at hle
      omega

end InStep

end EmbeddedSystem.Labs.ReadWriteApp
