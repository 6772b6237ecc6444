import EmbeddedSystem.Verified.UserMem

/-!
# The openat probe

`open_modify.bpf.c` looks at the file name of every `openat` and writes
`./hack.txt` over it if it is `./test.txt`.  It compares the ten characters of
`./test.txt` but not the NUL behind them, so that every longer name that
begins with them is taken for it and cut off where `./hack.txt` ends.

Whatever the name is, the probe stays in front of its end, or at its NUL
(`rewritesTarget_iff`).
-/

set_option autoImplicit false

namespace EmbeddedSystem.Labs.OpenModify

open EmbeddedSystem.Verified
open EmbeddedSystem.Verified.CString

def testTxt : CStr := ⟨ascii "./test.txt", by decide⟩

def hackTxt : CStr := ⟨ascii "./hack.txt", by decide⟩

/-- `char target[] = "./test.txt";` -/
def target : Bytes := testTxt.bytes ++ [0]

/-- `char bypass[] = "./hack.txt";` -/
def bypass : Bytes := hackTxt.bytes ++ [0]

/-- The loop over `i`, with `n` rounds to go; the result is `match`. -/
def matchLoop (filename target : Bytes) (i : Nat) : Nat → Int
  | 0 => 1
  | n + 1 =>
      if filename[i]? ≠ target[i]? then 0
      else matchLoop filename target (i + 1) n

/-- `TRACEPOINT_PROBE(syscalls, sys_enter_openat)` with `args->filename` at
`addr`, for any contents of the array `filename` before.  The read faults or
not, and the write cannot store the last `left` bytes. -/
def sysEnterOpenat (m : UserMem) (addr : Nat) (filename : CBuffer 256)
    (fault : Bool) (left : Nat) : UserMem :=
  let filename := m.bpfProbeReadUserStr filename addr fault
  if matchLoop filename.bytes target 0 10 ≠ 0 then
    m.bpfProbeWriteUser addr bypass left
  else m

/-! ## Which names match -/

theorem matchLoop_ne_zero_iff {filename target : Bytes} {i n : Nat}
    (hfilename : i + n ≤ filename.length) (htarget : i + n ≤ target.length) :
    matchLoop filename target i n ≠ 0 ↔
      (filename.drop i).take n = (target.drop i).take n := by
  induction n generalizing i with
  | zero => exact iff_of_true Int.one_ne_zero rfl
  | succ n ih =>
      have hf : i < filename.length := by omega
      have ht : i < target.length := by omega
      have hrest := ih (i := i + 1) (by omega) (by omega)
      rw [matchLoop, List.drop_eq_getElem_cons hf,
        List.drop_eq_getElem_cons ht, List.take_succ_cons, List.take_succ_cons,
        List.cons.injEq, List.getElem?_eq_getElem hf,
        List.getElem?_eq_getElem ht]
      by_cases hhead : filename[i] = target[i]
      · rw [if_neg (fun hne => hne (congrArg some hhead)), hrest]
        exact (and_iff_right hhead).symm
      · rw [if_pos (fun heq => hhead (Option.some.inj heq))]
        exact iff_of_false (fun hne => hne rfl) (fun heq => hhead heq.1)

/-- A name matches if it begins with `./test.txt`. -/
theorem matchLoop_read_iff {m : UserMem} {addr : Nat} {name : CStr}
    (h : m.StrAt addr name) (filename : CBuffer 256) :
    matchLoop (m.bpfProbeReadUserStr filename addr false).bytes target 0 10 ≠
      0 ↔ testTxt.bytes <+: name.bytes := by
  have hlen := (m.bpfProbeReadUserStr filename addr false).length_eq
  have hfree : 0 ∉ testTxt.bytes := testTxt.nulFree
  rw [matchLoop_ne_zero_iff (by omega) (by decide),
    ← UserMem.prefix_bpfProbeReadUserStr_iff h filename hfree (by decide),
    List.prefix_iff_eq_take]
  exact eq_comm

theorem sysEnterOpenat_eq {m : UserMem} {addr : Nat} {name : CStr}
    (h : m.StrAt addr name) (filename : CBuffer 256) (left : Nat) :
    sysEnterOpenat m addr filename false left =
      if testTxt.bytes <+: name.bytes then m.bpfProbeWriteUser addr bypass left
      else m := by
  unfold sysEnterOpenat
  by_cases hpre : testTxt.bytes <+: name.bytes
  · rw [if_pos hpre]
    exact if_pos ((matchLoop_read_iff h filename).mpr hpre)
  · rw [if_neg hpre]
    exact if_neg fun hne => hpre ((matchLoop_read_iff h filename).mp hne)

/-! ## What the write does -/

/-- The two names differ from their third to their sixth character. -/
theorem hackTxt_over_testTxt {k : Nat} (hk : k ≤ bypass.length) :
    bypass.take k ++ target.drop k = bypass ↔ 6 ≤ k := by
  have hall : ∀ k : Fin 12, bypass.take k ++ target.drop k = bypass ↔
      6 ≤ k.val := by decide
  exact hall ⟨k, Nat.lt_succ_of_le hk⟩

theorem length_testTxt : testTxt.bytes.length = 10 := by decide

theorem length_bypass : bypass.length = 11 := by decide

theorem length_take_bypass (left : Nat) :
    (bypass.take (bypass.length - left)).length = 11 - left := by
  rw [List.length_take, length_bypass]
  omega

/-- `./test.txt` becomes `./hack.txt` if the write gets as far as the last
character that is different. -/
theorem strAt_write_testTxt_iff {m : UserMem} {addr : Nat}
    (h : m.StrAt addr testTxt) (left : Nat) :
    (m.bpfProbeWriteUser addr bypass left).StrAt addr hackTxt ↔
      left ≤ 5 := by
  have harith : 6 ≤ 11 - left ↔ left ≤ 5 := by omega
  have hlen := length_take_bypass left
  have hle : (bypass.take (bypass.length - left)).length ≤
      testTxt.bytes.length + 1 := by
    rw [hlen, length_testTxt]
    exact Nat.sub_le 11 left
  have hsame : hackTxt.bytes.length = testTxt.bytes.length := by decide
  have hover := hackTxt_over_testTxt (Nat.sub_le bypass.length left)
  rw [length_bypass] at hlen hle hover
  have hwrite := UserMem.strAt_write_iff h hsame hle
  rw [hlen] at hwrite
  rw [UserMem.bpfProbeWriteUser, length_bypass, hwrite]
  exact hover.trans harith

/-- A name that begins with `./test.txt` stays as it is only if the write does
not get as far as the first character that is different. -/
theorem byte_write_eq_iff {m : UserMem} {addr : Nat} {name : CStr}
    (h : m.StrAt addr name) (hpre : testTxt.bytes <+: name.bytes)
    (left : Nat) :
    (m.bpfProbeWriteUser addr bypass left).byte = m.byte ↔ 9 ≤ left := by
  have hload : m.load addr 10 = testTxt.bytes := UserMem.load_of_prefix h hpre
  have hlen := length_take_bypass left
  rw [UserMem.bpfProbeWriteUser, UserMem.byte_write_eq_iff, hlen,
    length_bypass]
  constructor
  · intro heq
    rcases Nat.lt_or_ge left 9 with hlt | hge
    · have hthree := congrArg (List.take 3) heq
      rw [UserMem.take_load m addr (by omega), List.take_take,
        Nat.min_eq_left (by omega), ← UserMem.take_load m addr (n := 10)
          (by decide), hload] at hthree
      exact absurd hthree (by decide)
    · exact hge
  · intro hleft
    have hsame : ∀ k : Fin 3, testTxt.bytes.take k = bypass.take k := by
      decide
    rw [← UserMem.take_load m addr (n := 10) (by omega), hload]
    exact hsame ⟨11 - left, by omega⟩

/-! ## The result -/

/-- What the probe is there for: it makes `./test.txt` to `./hack.txt`, and
any other name stays as it is. -/
def RewritesTarget (addr : Nat) (name : CStr) (m m' : UserMem) : Prop :=
  (name = testTxt → m'.StrAt addr hackTxt) ∧
    (name ≠ testTxt → m'.byte = m.byte)

/-- The probe never stores behind the NUL of the name.  It does what it is
there for unless the name begins with `./test.txt`; then the name must be
`./test.txt` itself and the write must get as far as the last character that
is different, or the write must fail before it changes a longer name. -/
theorem rewritesTarget_iff {m : UserMem} {addr : Nat} {name : CStr}
    (h : m.StrAt addr name) (filename : CBuffer 256) (left : Nat) :
    (∃ stored, (sysEnterOpenat m addr filename false left).stored =
        m.stored ++ stored ∧
      ∀ a ∈ stored, addr ≤ a ∧ a ≤ addr + name.bytes.length) ∧
    (RewritesTarget addr name m (sysEnterOpenat m addr filename false left) ↔
      (testTxt.bytes <+: name.bytes →
        name = testTxt ∧ left ≤ 5 ∨ name ≠ testTxt ∧ 9 ≤ left)) := by
  rw [sysEnterOpenat_eq h]
  by_cases hpre : testTxt.bytes <+: name.bytes
  · have hlen := length_take_bypass left
    have hname : 10 ≤ name.bytes.length := hpre.length_le
    rw [if_pos hpre]
    constructor
    · refine ⟨_, UserMem.stored_write m addr _, fun a ha => ?_⟩
      rw [hlen, List.mem_range'_1] at ha
      omega
    · rw [RewritesTarget, byte_write_eq_iff h hpre]
      by_cases heq : name = testTxt
      · subst heq
        rw [strAt_write_testTxt_iff h]
        simp
      · simp [heq, hpre]
  · have hne : name ≠ testTxt := by
      rintro rfl
      exact hpre (List.prefix_refl _)
    rw [if_neg hpre]
    constructor
    · exact ⟨[], (List.append_nil _).symm, fun a ha => by cases ha⟩
    · exact iff_of_true ⟨fun heq => absurd heq hne, fun _ => rfl⟩
        (fun hp => absurd hp hpre)

/-- A memory with one string in it, at 4096. -/
def memoryWith (s : CStr) : UserMem :=
  UserMem.write ⟨fun _ => 0, []⟩ 4096 (s.bytes ++ [0])

def backup : CStr := ⟨ascii "./test.txt.bak", by decide⟩

/-- `./test.txt` in a memory of its own. -/
theorem rewritesTarget_iff_testTxt :
    RewritesTarget 4096 testTxt (memoryWith testTxt)
      (sysEnterOpenat (memoryWith testTxt) 4096 (CBuffer.zeros 256) false
        0) := by
  have hstr : (memoryWith testTxt).StrAt 4096 testTxt := by decide +kernel
  exact (rewritesTarget_iff hstr (CBuffer.zeros 256) 0).2.mpr
    fun _ => Or.inl ⟨rfl, by decide⟩

/-- `./test.txt.bak` is another name, and it is written over. -/
theorem backup_redirected :
    (memoryWith backup).StrAt 4096 backup ∧ backup ≠ testTxt ∧
      (sysEnterOpenat (memoryWith backup) 4096 (CBuffer.zeros 256) false
        0).StrAt 4096 hackTxt ∧
      ¬ RewritesTarget 4096 backup (memoryWith backup)
        (sysEnterOpenat (memoryWith backup) 4096 (CBuffer.zeros 256) false
          0) := by
  have hne : backup ≠ testTxt := by decide
  have hhack : (sysEnterOpenat (memoryWith backup) 4096 (CBuffer.zeros 256)
      false 0).byte 4098 ≠ (memoryWith backup).byte 4098 := by decide +kernel
  refine ⟨by decide +kernel, hne, by decide +kernel, fun hrewrites => ?_⟩
  exact hhack (congrFun (hrewrites.2 hne) 4098)

end EmbeddedSystem.Labs.OpenModify
