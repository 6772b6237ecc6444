import EmbeddedSystem.Labs.OpenModify
import Mathlib.Data.List.Nodup

/-!
# The program that the openat probe is for

`read_file.c` opens `./test.txt` again and again and prints what it reads.
The probe of `open_modify.bpf.c` writes over the array that the program keeps
its file name in, and leaves any other name alone (`MainStep.name`).
-/

set_option autoImplicit false

namespace EmbeddedSystem.Labs.OpenModify

open EmbeddedSystem.Verified
open EmbeddedSystem.Verified.CString

/-! ## `read_file.c` -/

/-- Where `main` has its two arrays. -/
structure Frame where
  filename : Nat
  buf : Nat
  apart : filename + 100 ≤ buf ∨ buf + 100 ≤ filename
deriving DecidableEq, Repr

/-- The next statement of `main`; `getname` is in the kernel, behind the
tracepoint, where `openat` copies the file name. -/
inductive Pc where
  | declare
  | openat
  | getname
  | clear (fd : Int)
  | read (fd : Int)
  | print (fd ret : Int)
  | close (fd : Int)
deriving DecidableEq, Repr

/-- `read %d bytes: %s from %s` -/
structure Line where
  ret : Int
  buf : Bytes
  filename : Bytes
deriving DecidableEq, Repr

/-- A process that runs `read_file.c`, with the names of the files it has
opened and the lines it has printed. -/
structure ReadFile where
  frame : Frame
  mem : UserMem
  pc : Pc
  opened : List Bytes
  lines : List Line

/-! ## The kernel -/

/-- What the kernel keeps: how many times the probe is attached, and which
processes its lines are about. -/
structure Kernel where
  probes : Nat
  trace : List Nat
deriving DecidableEq, Repr

/-- What one run of the probe meets: its array before, whether the read
faults, and how many bytes it cannot store. -/
structure ProbeRun where
  filename : CBuffer 256
  fault : Bool
  left : Nat
deriving DecidableEq, Repr

/-- What the kernel decides: what each probe meets, what `open` and `read`
come to, and whether the probe can be loaded. -/
structure Env where
  runs : List ProbeRun
  fd : Int
  data : Option Bytes
  loads : Bool
deriving DecidableEq, Repr

/-- `match` in the probe. -/
def Matches (m : UserMem) (addr : Nat) (r : ProbeRun) : Prop :=
  matchLoop (m.bpfProbeReadUserStr r.filename addr r.fault).bytes target 0 10 ≠
    0

instance (m : UserMem) (addr : Nat) (r : ProbeRun) :
    Decidable (Matches m addr r) :=
  inferInstanceAs (Decidable (_ ≠ _))

/-- The probes, one after the other, at an `openat` of process `i`; each one
that matches prints a line. -/
def sysEnter (addr i : Nat) :
    List ProbeRun → UserMem × List Nat → UserMem × List Nat
  | [], s => s
  | r :: runs, s =>
      sysEnter addr i runs
        (sysEnterOpenat s.1 addr r.filename r.fault r.left,
          if Matches s.1 addr r then s.2 ++ [i] else s.2)

/-- `PATH_MAX` -/
def pathMax : Nat := 4096

/-- What `read(fd, buf, 8)` stores; it fails for a file that was not
opened. -/
def readData (fd : Int) (data : Option Bytes) : Option Bytes :=
  if fd < 0 then none else data.map (List.take 8)

/-- One step of `main`. -/
def readFileMain (g : Kernel) (i : Nat) (p : ReadFile) (o : Env) :
    Option (Kernel × ReadFile) :=
  match p.pc with
  | .declare =>
      some (g, { p with
        mem := p.mem.write p.frame.filename
          (testTxt.bytes ++ List.replicate 90 0)
        pc := .openat })
  | .openat =>
      if o.runs.length = g.probes then
        let s := sysEnter p.frame.filename i o.runs (p.mem, g.trace)
        some ({ g with trace := s.2 }, { p with mem := s.1, pc := .getname })
      else none
  | .getname =>
      some (g, { p with
        opened := p.opened ++ [text (p.mem.load p.frame.filename pathMax)]
        pc := .clear o.fd })
  | .clear fd =>
      some (g, { p with
        mem := p.mem.write p.frame.buf (List.replicate 100 0)
        pc := .read fd })
  | .read fd =>
      match readData fd o.data with
      | none => some (g, { p with pc := .print fd (-1) })
      | some data =>
          some (g, { p with
            mem := p.mem.write p.frame.buf data
            pc := .print fd data.length })
  | .print fd ret =>
      some (g, { p with
        lines := p.lines ++
          [⟨ret, text (p.mem.load p.frame.buf 100),
            text (p.mem.load p.frame.filename 100)⟩]
        pc := .close fd })
  | .close _ => some (g, { p with pc := .openat })

/-! ## What becomes of the name -/

/-- `./test.txt` under more and more of `./hack.txt`. -/
def names : List CStr :=
  [ testTxt
  , ⟨ascii "./hest.txt", by decide⟩
  , ⟨ascii "./hast.txt", by decide⟩
  , ⟨ascii "./hact.txt", by decide⟩
  , hackTxt ]

theorem length_names : ∀ n ∈ names, n.bytes.length = 10 := by decide

theorem prefix_names :
    ∀ n ∈ names, testTxt.bytes <+: n.bytes → n = testTxt := by decide

theorem testTxt_mem : testTxt ∈ names := by decide

theorem hackTxt_mem : hackTxt ∈ names := by decide

theorem hackTxt_ne : hackTxt ≠ testTxt := by decide

theorem names_over_testTxt {k : Nat} (hk : k ≤ bypass.length) :
    ∃ n ∈ names, bypass.take k ++ target.drop k = n.bytes ++ [0] := by
  have hall : ∀ k : Fin 12, ∃ n ∈ names,
      bypass.take k ++ target.drop k = n.bytes ++ [0] := by decide
  exact hall ⟨k, Nat.lt_succ_of_le hk⟩

/-- Only `./test.txt` itself matches. -/
theorem matches_iff {m : UserMem} {addr : Nat} {n : CStr}
    (h : m.StrAt addr n) (hn : n ∈ names) (r : ProbeRun) :
    Matches m addr r ↔ r.fault = false ∧ n = testTxt := by
  cases hf : r.fault with
  | true =>
      unfold Matches
      rw [hf]
      exact iff_of_false (fun hne => hne rfl) (fun hne => by cases hne.1)
  | false =>
      unfold Matches
      rw [hf, matchLoop_read_iff h]
      constructor
      · exact fun hpre => ⟨rfl, prefix_names n hn hpre⟩
      · rintro ⟨-, rfl⟩
        exact List.prefix_refl _

theorem sysEnterOpenat_of_not_matches {m : UserMem} {addr : Nat}
    {r : ProbeRun} (h : ¬ Matches m addr r) :
    sysEnterOpenat m addr r.filename r.fault r.left = m :=
  if_neg h

theorem sysEnterOpenat_of_matches {m : UserMem} {addr : Nat}
    {r : ProbeRun} (h : Matches m addr r) :
    sysEnterOpenat m addr r.filename r.fault r.left =
      m.bpfProbeWriteUser addr bypass r.left :=
  if_pos h

/-- What a probe that matches makes of the name. -/
theorem renamed {m : UserMem} {addr : Nat} (h : m.StrAt addr testTxt)
    (left : Nat) :
    ∃ n ∈ names, (m.bpfProbeWriteUser addr bypass left).StrAt addr n := by
  have hlen := length_take_bypass left
  obtain ⟨n, hn, hover⟩ := names_over_testTxt (k := 11 - left)
    (by rw [length_bypass]; omega)
  refine ⟨n, hn, ?_⟩
  rw [UserMem.bpfProbeWriteUser, UserMem.strAt_write_iff h
    (by rw [length_names n hn, length_testTxt])
    (by rw [hlen, length_testTxt]; omega), hlen, length_bypass]
  exact hover

/-- A name that is no longer `./test.txt` is left alone. -/
theorem sysEnter_names {addr i : Nat} {runs : List ProbeRun}
    {s : UserMem × List Nat} {n : CStr} (h : s.1.StrAt addr n)
    (hn : n ∈ names) :
    ∃ n' ∈ names, (sysEnter addr i runs s).1.StrAt addr n' ∧
      (n ≠ testTxt → n' = n) := by
  induction runs generalizing s n with
  | nil => exact ⟨n, hn, h, fun _ => rfl⟩
  | cons r runs ih =>
      unfold sysEnter
      by_cases hm : Matches s.1 addr r
      · have htest := ((matches_iff h hn r).mp hm).2
        subst htest
        obtain ⟨n₁, hn₁, h₁⟩ := renamed h r.left
        rw [sysEnterOpenat_of_matches hm]
        obtain ⟨n₂, hn₂, h₂, -⟩ := ih (s := (_, _)) h₁ hn₁
        exact ⟨n₂, hn₂, h₂, fun hne => absurd rfl hne⟩
      · rw [sysEnterOpenat_of_not_matches hm]
        exact ih (s := (_, _)) h hn

/-- The probes store in front of the end of the name. -/
theorem sysEnter_stored {addr i : Nat} {runs : List ProbeRun}
    {s : UserMem × List Nat} {a : Nat}
    (ha : a ∈ (sysEnter addr i runs s).1.stored) :
    a ∈ s.1.stored ∨ addr ≤ a ∧ a < addr + 11 := by
  induction runs generalizing s with
  | nil => exact Or.inl ha
  | cons r runs ih =>
      unfold sysEnter at ha
      rcases ih ha with hold | hnew
      · by_cases hm : Matches s.1 addr r
        · rw [sysEnterOpenat_of_matches hm, UserMem.bpfProbeWriteUser,
            UserMem.stored_write, List.mem_append, List.mem_range'_1,
            length_take_bypass] at hold
          rcases hold with hold | hwritten
          · exact Or.inl hold
          · exact Or.inr (by omega)
        · rw [sysEnterOpenat_of_not_matches hm] at hold
          exact Or.inl hold
      · exact Or.inr hnew

/-! ## Whole writes -/

/-- A probe that matches gets as far as the last character that is
different. -/
def Stores (r : ProbeRun) : Prop := r.fault = false → r.left ≤ 5

instance (r : ProbeRun) : Decidable (Stores r) :=
  inferInstanceAs (Decidable (_ → _))

/-- The name at `addr` is `./hack.txt` if a line says so, and `./test.txt`
otherwise. -/
def Told (m : UserMem) (addr i : Nat) (trace : List Nat) : Prop :=
  m.StrAt addr testTxt ∧ i ∉ trace ∨ m.StrAt addr hackTxt ∧ i ∈ trace

theorem sysEnter_told {addr i : Nat} {runs : List ProbeRun}
    {s : UserMem × List Nat} (h : Told s.1 addr i s.2) (hnodup : s.2.Nodup)
    (hruns : ∀ r ∈ runs, Stores r) :
    Told (sysEnter addr i runs s).1 addr i (sysEnter addr i runs s).2 ∧
      (sysEnter addr i runs s).2.Nodup ∧
      (∀ j, j ≠ i → (j ∈ (sysEnter addr i runs s).2 ↔ j ∈ s.2)) ∧
      ((∃ r ∈ runs, r.fault = false) →
        (sysEnter addr i runs s).1.StrAt addr hackTxt) := by
  induction runs generalizing s with
  | nil => exact ⟨h, hnodup, fun _ _ => Iff.rfl, fun ⟨r, hr, _⟩ => nomatch hr⟩
  | cons r runs ih =>
      have hrest : ∀ r ∈ runs, Stores r :=
        fun q hq => hruns q (List.mem_cons_of_mem r hq)
      have hstays : ∀ t : UserMem × List Nat, t.1.StrAt addr hackTxt →
          (sysEnter addr i runs t).1.StrAt addr hackTxt := by
        intro t ht
        obtain ⟨n, -, hn, hsame⟩ := sysEnter_names ht hackTxt_mem
        rw [hsame hackTxt_ne] at hn
        exact hn
      unfold sysEnter
      by_cases hm : Matches s.1 addr r
      · rw [if_pos hm, sysEnterOpenat_of_matches hm]
        rcases h with ⟨htest, hnot⟩ | ⟨hhack, -⟩
        · have hfault := ((matches_iff htest testTxt_mem r).mp hm).1
          have hleft := hruns r List.mem_cons_self hfault
          have hnow := (strAt_write_testTxt_iff htest r.left).mpr hleft
          have htold : Told (s.1.bpfProbeWriteUser addr bypass r.left) addr i
              (s.2 ++ [i]) :=
            Or.inr ⟨hnow, List.mem_append_right _ List.mem_cons_self⟩
          have hnodup' : (s.2 ++ [i]).Nodup := by
            rw [← List.concat_eq_append]
            exact (List.nodup_concat s.2 i).mpr ⟨hnot, hnodup⟩
          obtain ⟨hlast, hunique, hothers, -⟩ :=
            ih (s := (_, _)) htold hnodup' hrest
          refine ⟨hlast, hunique, fun j hj => (hothers j hj).trans ?_,
            fun _ => hstays (_, _) hnow⟩
          rw [List.mem_append, List.mem_singleton]
          exact or_iff_left hj
        · cases hackTxt_ne ((matches_iff hhack hackTxt_mem r).mp hm).2
      · rw [if_neg hm, sysEnterOpenat_of_not_matches hm]
        obtain ⟨hlast, hunique, hothers, hredirects⟩ :=
          ih (s := (_, _)) h hnodup hrest
        refine ⟨hlast, hunique, hothers, fun ⟨q, hq, hfault⟩ => ?_⟩
        rcases List.mem_cons.mp hq with rfl | hq
        · rcases h with ⟨htest, -⟩ | ⟨hhack, -⟩
          · have hmatch := (matches_iff htest testTxt_mem q).mpr ⟨hfault, rfl⟩
            exact absurd hmatch hm
          · exact hstays (_, _) hhack
        · exact hredirects ⟨q, hq, hfault⟩

/-! ## One step of `main` -/

/-- The steps of `main`, one constructor for each way through it. -/
inductive MainStep (g : Kernel) (i : Nat) (p : ReadFile) (o : Env) :
    Kernel → ReadFile → Prop where
  | declare (hpc : p.pc = .declare) :
      MainStep g i p o g { p with
        mem := p.mem.write p.frame.filename
          (testTxt.bytes ++ List.replicate 90 0)
        pc := .openat }
  | openat (hpc : p.pc = .openat) :
      MainStep g i p o
        { g with
          trace := (sysEnter p.frame.filename i o.runs (p.mem, g.trace)).2 }
        { p with
          mem := (sysEnter p.frame.filename i o.runs (p.mem, g.trace)).1
          pc := .getname }
  | getname (hpc : p.pc = .getname) :
      MainStep g i p o g { p with
        opened := p.opened ++ [text (p.mem.load p.frame.filename pathMax)]
        pc := .clear o.fd }
  | clear (fd : Int) (hpc : p.pc = .clear fd) :
      MainStep g i p o g { p with
        mem := p.mem.write p.frame.buf (List.replicate 100 0)
        pc := .read fd }
  | readFails (fd : Int) (hpc : p.pc = .read fd) :
      MainStep g i p o g { p with pc := .print fd (-1) }
  | read (fd : Int) (data : Bytes) (hpc : p.pc = .read fd)
      (hlen : data.length ≤ 8) :
      MainStep g i p o g { p with
        mem := p.mem.write p.frame.buf data
        pc := .print fd data.length }
  | print (fd ret : Int) (hpc : p.pc = .print fd ret) :
      MainStep g i p o g { p with
        lines := p.lines ++
          [⟨ret, text (p.mem.load p.frame.buf 100),
            text (p.mem.load p.frame.filename 100)⟩]
        pc := .close fd }
  | close (fd : Int) (hpc : p.pc = .close fd) :
      MainStep g i p o g { p with pc := .openat }

theorem readData_length {fd : Int} {data : Option Bytes} {bytes : Bytes}
    (h : readData fd data = some bytes) : bytes.length ≤ 8 := by
  unfold readData at h
  split at h
  · cases h
  · obtain ⟨b, -, rfl⟩ := Option.map_eq_some_iff.mp h
    rw [List.length_take]
    exact Nat.min_le_left _ _

theorem readFileMain_step {g g' : Kernel} {i : Nat} {p p' : ReadFile} {o : Env}
    (h : readFileMain g i p o = some (g', p')) : MainStep g i p o g' p' := by
  unfold readFileMain at h
  split at h
  case h_1 hpc =>
    cases h
    exact .declare hpc
  case h_2 hpc =>
    split at h
    case isTrue =>
      cases h
      exact .openat hpc
    case isFalse => cases h
  case h_3 hpc =>
    cases h
    exact .getname hpc
  case h_4 fd hpc =>
    cases h
    exact .clear fd hpc
  case h_5 fd hpc =>
    split at h
    case h_1 =>
      cases h
      exact .readFails fd hpc
    case h_2 data hdata =>
      cases h
      exact .read fd data hpc (readData_length hdata)
  case h_6 fd ret hpc =>
    cases h
    exact .print fd ret hpc
  case h_7 fd hpc =>
    cases h
    exact .close fd hpc

theorem text_name {m : UserMem} {addr : Nat} {n : CStr} (h : m.StrAt addr n)
    (hn : n ∈ names) {k : Nat} (hk : 10 ≤ k) :
    text (m.load addr k) = n.bytes := by
  rw [UserMem.text_load h, List.take_of_length_le]
  rw [length_names n hn]
  exact hk

theorem strAt_unique {m : UserMem} {addr : Nat} {n n' : CStr}
    (h : m.StrAt addr n) (h' : m.StrAt addr n') (hn : n ∈ names)
    (hn' : n' ∈ names) : n = n' := by
  have hload := text_name h hn (Nat.le_refl 10)
  have hload' := text_name h' hn' (Nat.le_refl 10)
  have hbytes : n.bytes = n'.bytes := hload.symm.trans hload'
  cases n
  cases n'
  cases hbytes
  rfl

/-- What is written to `buf` leaves the name alone. -/
theorem strAt_write_buf {p : ReadFile} {n : CStr} {src : Bytes}
    (h : p.mem.StrAt p.frame.filename n) (hn : n ∈ names)
    (hsrc : src.length ≤ 100) :
    (p.mem.write p.frame.buf src).StrAt p.frame.filename n := by
  have hlen := length_names n hn
  have hapart := p.frame.apart
  exact h.of_outside (by omega)

/-- A step of `main` opens what the name says, and only a probe changes the
name, if it is `./test.txt`. -/
theorem MainStep.name {g g' : Kernel} {i : Nat} {p p' : ReadFile} {o : Env}
    {n : CStr} (hst : MainStep g i p o g' p') (hpc : p.pc ≠ .declare)
    (hn : n ∈ names) (h : p.mem.StrAt p.frame.filename n) :
    p'.pc ≠ .declare ∧ ∃ n' ∈ names, p'.mem.StrAt p'.frame.filename n' ∧
      (n ≠ testTxt ∨ p.pc ≠ .openat → n' = n) ∧
      (p'.opened = p.opened ∨ n' = n ∧ p'.opened = p.opened ++ [n.bytes]) := by
  cases hst with
  | declare hdeclare => exact absurd hdeclare hpc
  | openat hpc =>
      obtain ⟨n', hn', hat, hkeeps⟩ :=
        sysEnter_names (i := i) (s := (p.mem, g.trace)) h hn
      refine ⟨fun h => (by cases h), n', hn', hat, fun hor => ?_, Or.inl rfl⟩
      exact hor.elim hkeeps (absurd hpc)
  | getname hpc =>
      refine ⟨fun h => (by cases h), n, hn, h, fun _ => rfl, Or.inr ⟨rfl, ?_⟩⟩
      rw [text_name h hn (by decide)]
  | clear fd hpc =>
      have hzeros : (List.replicate 100 0 : Bytes).length ≤ 100 :=
        Nat.le_of_eq List.length_replicate
      have hat := strAt_write_buf h hn hzeros
      exact ⟨fun h => (by cases h), n, hn, hat, fun _ => rfl, Or.inl rfl⟩
  | read fd data hpc hlen =>
      have hfits : data.length ≤ 100 := by omega
      have hat := strAt_write_buf h hn hfits
      exact ⟨fun h => (by cases h), n, hn, hat, fun _ => rfl, Or.inl rfl⟩
  | _ => exact ⟨fun h => (by cases h), n, hn, h, fun _ => rfl, Or.inl rfl⟩

/-! ## One process -/

/-- The file has been opened and its line has not been printed yet. -/
def Pc.inRound : Pc → Bool
  | .clear _ => true
  | .read _ => true
  | .print _ _ => true
  | _ => false

/-- `n` is the name in the array.  The process has opened `./test.txt`, and
then `n`, and has printed what it opened. -/
structure Tells (p : ReadFile) (n : CStr) : Prop where
  known : n ∈ names
  here : p.mem.StrAt p.frame.filename n
  opened : ∃ a b, p.opened =
    List.replicate a testTxt.bytes ++ List.replicate b n.bytes
  lines : p.opened = p.lines.map Line.filename ++
    if p.pc.inRound then [n.bytes] else []

/-- A line shows no more than what was read, and that is at most 8 bytes. -/
def Shown (ret : Int) (buf : Bytes) : Prop :=
  buf.length ≤ ret.toNat ∧ ret ≤ 8

/-- One of the two arrays of `main` lies at `a`. -/
def Frame.Holds (f : Frame) (a : Nat) : Prop :=
  f.filename ≤ a ∧ a < f.filename + 100 ∨ f.buf ≤ a ∧ a < f.buf + 100

structure Proper (p : ReadFile) : Prop where
  fresh : p.pc = .declare → p.opened = [] ∧ p.lines = []
  tells : p.pc ≠ .declare → ∃ n, Tells p n
  cleared : ∀ fd, p.pc = .read fd →
    p.mem.load p.frame.buf 100 = List.replicate 100 0
  filled : ∀ fd ret, p.pc = .print fd ret →
    Shown ret (text (p.mem.load p.frame.buf 100))
  shown : ∀ l ∈ p.lines, Shown l.ret l.buf
  stored : ∀ a ∈ p.mem.stored, p.frame.Holds a

theorem launched_proper (frame : Frame) (byte : Nat → UInt8) :
    Proper ⟨frame, ⟨byte, []⟩, .declare, [], []⟩ where
  fresh := fun _ => ⟨rfl, rfl⟩
  tells := fun hne => absurd rfl hne
  cleared := fun fd h => by cases h
  filled := fun fd ret h => by cases h
  shown := fun l h => by cases h
  stored := fun a h => by cases h

theorem Tells.opened_cases {p : ReadFile} {n : CStr} (h : Tells p n)
    {name : Bytes} (hname : name ∈ p.opened) (hne : name ≠ testTxt.bytes) :
    name = n.bytes := by
  obtain ⟨a, b, hab⟩ := h.opened
  rw [hab, List.mem_append] at hname
  rcases hname with htest | hother
  · exact absurd (List.eq_of_mem_replicate htest) hne
  · exact List.eq_of_mem_replicate hother

/-- The files opened go on in the same way. -/
theorem Tells.opened_step {p p' : ReadFile} {n n' : CStr} (h : Tells p n)
    (hkeeps : n ≠ testTxt → n' = n)
    (hopened : p'.opened = p.opened ∨
      n' = n ∧ p'.opened = p.opened ++ [n.bytes]) :
    ∃ a b, p'.opened =
      List.replicate a testTxt.bytes ++ List.replicate b n'.bytes := by
  obtain ⟨a, b, hab⟩ := h.opened
  rcases hopened with hsame | ⟨rfl, hmore⟩
  · rw [hsame, hab]
    by_cases htest : n = testTxt
    · refine ⟨a + b, 0, ?_⟩
      rw [htest, List.replicate_append_replicate]
      exact (List.append_nil _).symm
    · rw [hkeeps htest]
      exact ⟨a, b, rfl⟩
  · refine ⟨a, b + 1, ?_⟩
    rw [hmore, hab, List.append_assoc, List.replicate_succ']

/-- What is in front of the zeros. -/
theorem length_text_le {a : Bytes} (k : Nat) (h : a.length < k) :
    (text (a ++ List.replicate (k - a.length) 0)).length ≤ a.length := by
  obtain ⟨rest, hrest⟩ := Nat.exists_eq_add_of_lt h
  have hzeros : k - a.length = rest + 1 := by omega
  have hprefix : text a <+: a := List.takeWhile_prefix _
  rw [hzeros, List.replicate_succ, text_append_zero]
  exact hprefix.length_le

theorem Tells.step {g g' : Kernel} {i : Nat} {p p' : ReadFile} {o : Env}
    {n : CStr} (h : Tells p n) (hpc : p.pc ≠ .declare)
    (hst : MainStep g i p o g' p') : ∃ n', Tells p' n' := by
  obtain ⟨-, n', hn', hat, hkeeps, hopened⟩ := hst.name hpc h.known h.here
  have hgoes := h.opened_step (fun hne => hkeeps (Or.inl hne)) hopened
  refine ⟨n', hn', hat, hgoes, ?_⟩
  have hlines := h.lines
  cases hst with
  | declare hdeclare => exact absurd hdeclare hpc
  | openat hpc =>
      rw [hpc] at hlines
      exact hlines
  | getname hpc =>
      rw [hpc] at hlines
      have hname := text_name h.here h.known (k := pathMax) (by decide)
      have hsame : n' = n := hkeeps (Or.inr (by rw [hpc]; decide))
      have hbefore : p.opened = p.lines.map Line.filename ++ [] := hlines
      rw [List.append_nil] at hbefore
      show p.opened ++ [text (p.mem.load p.frame.filename pathMax)] =
        p.lines.map Line.filename ++ [n'.bytes]
      rw [hname, hbefore, hsame]
  | clear fd hpc =>
      have hsame : n' = n := hkeeps (Or.inr (by rw [hpc]; exact nofun))
      rw [hpc] at hlines
      rw [hsame]
      exact hlines
  | readFails fd hpc =>
      have hsame : n' = n := hkeeps (Or.inr (by rw [hpc]; exact nofun))
      rw [hpc] at hlines
      rw [hsame]
      exact hlines
  | read fd data hpc hlen =>
      have hsame : n' = n := hkeeps (Or.inr (by rw [hpc]; exact nofun))
      rw [hpc] at hlines
      rw [hsame]
      exact hlines
  | print fd ret hpc =>
      rw [hpc] at hlines
      have hname := text_name h.here h.known (k := 100) (by decide)
      show p.opened = (p.lines ++ [_]).map Line.filename ++ []
      rw [List.map_append, List.append_nil]
      show p.opened = p.lines.map Line.filename ++
        [text (p.mem.load p.frame.filename 100)]
      rw [hname]
      exact hlines
  | close fd hpc =>
      rw [hpc] at hlines
      exact hlines

/-- What a write to one of the arrays stores. -/
theorem holds_write {p : ReadFile} {addr : Nat} {src : Bytes}
    (h : ∀ a ∈ p.mem.stored, p.frame.Holds a)
    (hsrc : ∀ a, addr ≤ a → a < addr + src.length → p.frame.Holds a) :
    ∀ a ∈ (p.mem.write addr src).stored, p.frame.Holds a := by
  intro a ha
  rw [UserMem.stored_write, List.mem_append, List.mem_range'_1] at ha
  rcases ha with hold | hnew
  · exact h a hold
  · exact hsrc a hnew.1 hnew.2

theorem Proper.step {g g' : Kernel} {i : Nat} {p p' : ReadFile} {o : Env}
    (h : Proper p) (hst : MainStep g i p o g' p') : Proper p' := by
  have htells : p.pc ≠ .declare → ∃ n, Tells p' n := by
    intro hpc
    obtain ⟨n, hn⟩ := h.tells hpc
    exact hn.step hpc hst
  cases hst with
  | declare hpc =>
      obtain ⟨hopened, hlines⟩ := h.fresh hpc
      have hat : (p.mem.write p.frame.filename
          (testTxt.bytes ++ List.replicate 90 0)).StrAt p.frame.filename
            testTxt :=
        UserMem.strAt_write _ _ testTxt (List.replicate 89 0)
      refine ⟨nofun, fun _ => ⟨testTxt, testTxt_mem, hat, ⟨0, 0, hopened⟩, ?_⟩,
        nofun, nofun, h.shown, ?_⟩
      · show p.opened = p.lines.map Line.filename ++ []
        rw [hopened, hlines]
        rfl
      · refine holds_write h.stored fun a hlo hhi => Or.inl ⟨hlo, ?_⟩
        rw [List.length_append, length_testTxt, List.length_replicate] at hhi
        exact hhi
  | openat hpc =>
      refine ⟨nofun, fun _ => htells (by rw [hpc]; exact nofun), nofun, nofun,
        h.shown, fun a ha => ?_⟩
      rcases sysEnter_stored ha with hold | hnew
      · exact h.stored a hold
      · have hend := Nat.add_le_add_left (show 11 ≤ 100 by decide)
          p.frame.filename
        exact Or.inl ⟨hnew.1, Nat.lt_of_lt_of_le hnew.2 hend⟩
  | getname hpc =>
      exact ⟨nofun, fun _ => htells (by rw [hpc]; exact nofun), nofun, nofun,
        h.shown, h.stored⟩
  | clear fd hpc =>
      refine ⟨nofun, fun _ => htells (by rw [hpc]; exact nofun), fun fd _ => ?_,
        nofun, h.shown, ?_⟩
      · have hload := UserMem.load_write p.mem p.frame.buf
          (List.replicate 100 0)
        rw [List.length_replicate] at hload
        exact hload
      · refine holds_write h.stored fun a hlo hhi => Or.inr ⟨hlo, ?_⟩
        rw [List.length_replicate] at hhi
        exact hhi
  | readFails fd hpc =>
      refine ⟨nofun, fun _ => htells (by rw [hpc]; exact nofun), nofun,
        fun f ret hprint => ?_, h.shown, h.stored⟩
      cases hprint
      show Shown (-1) (text (p.mem.load p.frame.buf 100))
      rw [h.cleared fd hpc]
      exact ⟨length_text_le (a := []) 100 (by decide), by decide⟩
  | read fd data hpc hlen =>
      refine ⟨nofun, fun _ => htells (by rw [hpc]; exact nofun), nofun,
        fun f ret hprint => ?_, h.shown, ?_⟩
      · cases hprint
        have hfits : data.length ≤ 100 := by omega
        have hload := UserMem.load_write_append p.mem p.frame.buf hfits
        rw [h.cleared fd hpc, List.drop_replicate] at hload
        show Shown data.length
          (text ((p.mem.write p.frame.buf data).load p.frame.buf 100))
        rw [hload]
        have htext := length_text_le (a := data) 100 (by omega)
        exact ⟨htext, by omega⟩
      · exact holds_write h.stored fun a hlo hhi => Or.inr ⟨hlo, by omega⟩
  | print fd ret hpc =>
      refine ⟨nofun, fun _ => htells (by rw [hpc]; exact nofun), nofun, nofun,
        fun l hl => ?_, h.stored⟩
      rcases List.mem_append.mp hl with hold | hnew
      · exact h.shown l hold
      · rw [List.mem_singleton.mp hnew]
        exact h.filled fd ret hpc
  | close fd hpc =>
      exact ⟨nofun, fun _ => htells (by rw [hpc]; exact nofun), nofun, nofun,
        h.shown, h.stored⟩

theorem Proper.opened_names {p : ReadFile} (h : Proper p) :
    ∃ n ∈ names, ∃ a b, p.opened =
      List.replicate a testTxt.bytes ++ List.replicate b n.bytes := by
  by_cases hpc : p.pc = .declare
  · exact ⟨testTxt, testTxt_mem, 0, 0, (h.fresh hpc).1⟩
  · obtain ⟨n, hn⟩ := h.tells hpc
    exact ⟨n, hn.known, hn.opened⟩

theorem Proper.lines_opened {p : ReadFile} (h : Proper p) :
    p.lines.map Line.filename <+: p.opened := by
  by_cases hpc : p.pc = .declare
  · rw [(h.fresh hpc).2]
    exact List.nil_prefix
  · obtain ⟨n, hn⟩ := h.tells hpc
    rw [hn.lines]
    exact List.prefix_append _ _

/-- A file opened that is not `./test.txt` is the one of that name. -/
theorem Proper.tells_other {p : ReadFile} (h : Proper p) {name : Bytes}
    (hname : name ∈ p.opened) (hne : name ≠ testTxt.bytes) :
    p.pc ≠ .declare ∧ ∃ n, Tells p n ∧ name = n.bytes := by
  have hpc : p.pc ≠ .declare := by
    intro hpc
    rw [(h.fresh hpc).1] at hname
    cases hname
  obtain ⟨n, hn⟩ := h.tells hpc
  exact ⟨hpc, n, hn, hn.opened_cases hname hne⟩

/-- A step of `main` whose probes store whole names. -/
theorem MainStep.told {g g' : Kernel} {i : Nat} {p p' : ReadFile} {o : Env}
    (hst : MainStep g i p o g' p') (hnodup : g.trace.Nodup)
    (hfresh : p.pc = .declare → i ∉ g.trace)
    (htold : p.pc ≠ .declare → Told p.mem p.frame.filename i g.trace)
    (hruns : ∀ r ∈ o.runs, Stores r) :
    p'.pc ≠ .declare ∧ Told p'.mem p'.frame.filename i g'.trace ∧
      g'.trace.Nodup ∧ ∀ j, j ≠ i → (j ∈ g'.trace ↔ j ∈ g.trace) := by
  have hbuf : ∀ src : Bytes, src.length ≤ 100 →
      Told p.mem p.frame.filename i g.trace →
      Told (p.mem.write p.frame.buf src) p.frame.filename i g.trace := by
    intro src hsrc h
    exact h.imp (And.imp_left fun h => strAt_write_buf h testTxt_mem hsrc)
      (And.imp_left fun h => strAt_write_buf h hackTxt_mem hsrc)
  cases hst with
  | declare hpc =>
      have hat := UserMem.strAt_write p.mem p.frame.filename testTxt
        (List.replicate 89 0)
      exact ⟨nofun, Or.inl ⟨hat, hfresh hpc⟩, hnodup, fun _ _ => Iff.rfl⟩
  | openat hpc =>
      have hnow := htold (by rw [hpc]; exact nofun)
      obtain ⟨hnext, hunique, hothers, -⟩ :=
        sysEnter_told (s := (p.mem, g.trace)) hnow hnodup hruns
      exact ⟨nofun, hnext, hunique, hothers⟩
  | clear fd hpc =>
      have hnow := htold (by rw [hpc]; exact nofun)
      have hnext := hbuf (List.replicate 100 0)
        (Nat.le_of_eq List.length_replicate) hnow
      exact ⟨nofun, hnext, hnodup, fun _ _ => Iff.rfl⟩
  | read fd data hpc hlen =>
      have hnow := htold (by rw [hpc]; exact nofun)
      have hnext := hbuf data (by omega) hnow
      exact ⟨nofun, hnext, hnodup, fun _ _ => Iff.rfl⟩
  | getname hpc | readFails fd hpc | print fd ret hpc | close fd hpc =>
      have hnow := htold (by rw [hpc]; exact nofun)
      exact ⟨nofun, hnow, hnodup, fun _ _ => Iff.rfl⟩

end EmbeddedSystem.Labs.OpenModify
