import EmbeddedSystem.Verified.CBuffer
import EmbeddedSystem.Verified.Uaccess

/-!
# The proc file of `ch11_202111360.c`

A write to `/proc/ch11_proc_dir/proc_info` is copied to `read_str`, and a read
shows the string there and counts its spaces.  The loop that counts has no
bound of its own; it stops because the last byte of `read_str` is never
anything but 0 (`Terminated`).

`copy_from_user` works on `read_str` itself.  A write that fails leaves the
bytes copied so far there, and they are what a read shows from then on
(`failed_write_iff`).
-/

set_option autoImplicit false

namespace EmbeddedSystem.Labs.Ch11Proc

open EmbeddedSystem.Verified
open EmbeddedSystem.Verified.CString
open EmbeddedSystem.Verified.CBuffer
open EmbeddedSystem.Verified.Uaccess

/-- `BUF_SIZE` -/
def bufSize : Nat := 50

/-- `char read_str[BUF_SIZE + 1]` -/
abbrev ReadStr := CBuffer (bufSize + 1)

def space : UInt8 := 32

/-! ## The file operations -/

/-- What is printed: the string behind `str :` and the number behind
`count:`. -/
structure Shown where
  str : Bytes
  count : Nat
deriving DecidableEq, Repr

/-- The loop of `proc_info_show` from index `i` on: where it stops, and the
count.  `none` is a read behind the end of `read_str`. -/
def countSpaces : Bytes → Nat → Nat → Option (Nat × Nat)
  | [], _, _ => none
  | c :: cs, i, count =>
      if c = 0 then some (i, count)
      else countSpaces cs (i + 1) (if c = space then count + 1 else count)

def procInfoShow (readStr : ReadStr) : Option Shown :=
  (countSpaces readStr.bytes 0 0).map fun x => ⟨text readStr.bytes, x.2⟩

/-- The new `read_str` and the value returned.  `left` says how many bytes at
the end of those asked for cannot be copied. -/
def procInfoWrite (readStr : ReadStr) (ubuf : Bytes) (left : Nat) :
    ReadStr × Int :=
  let len := if ubuf.length > bufSize then bufSize else ubuf.length
  let copied := readStr.store (received (ubuf.take len) left)
  if notCopied (ubuf.take len) left ≠ 0 then (copied, -efault)
  else
    let ended := copied.set len 0
    if 0 < len ∧ ended.bytes[len - 1]? = some newline then
      (ended.set (len - 1) 0, ubuf.length)
    else (ended, ubuf.length)

/-- An access to the file. -/
inductive Access where
  | write (ubuf : Bytes) (left : Nat)
  | read
deriving DecidableEq, Repr

def apply (readStr : ReadStr) : Access → ReadStr
  | .write ubuf left => (procInfoWrite readStr ubuf left).1
  | .read => readStr

/-- `read_str` after these accesses to the loaded module. -/
def after (accesses : List Access) : ReadStr :=
  accesses.foldl apply (zeros (bufSize + 1))

/-! ## The loop stops -/

theorem countSpaces_of_mem {cs : Bytes} (h : 0 ∈ cs) (i count : Nat) :
    countSpaces cs i count =
      some (i + (text cs).length, count + (text cs).count space) := by
  induction cs generalizing i count with
  | nil => exact absurd h List.not_mem_nil
  | cons c cs ih =>
      unfold countSpaces
      by_cases hc : c = 0
      · simp [text, hc]
      · have hcs : 0 ∈ cs := by
          rcases List.mem_cons.mp h with h0 | hcs
          · exact absurd h0.symm hc
          · exact hcs
        have htext : text (c :: cs) = c :: text cs := by simp [text, hc]
        rw [if_neg hc, ih hcs, htext, List.length_cons, List.count_cons]
        by_cases hs : c = space
        · simp [hs]
          omega
        · simp [hs]
          omega

theorem countSpaces_of_not_mem {cs : Bytes} (h : 0 ∉ cs) (i count : Nat) :
    countSpaces cs i count = none := by
  induction cs generalizing i count with
  | nil => rfl
  | cons c cs ih =>
      have hc : c ≠ 0 := fun h0 => h (h0 ▸ List.mem_cons_self)
      rw [countSpaces, if_neg hc]
      exact ih (fun hcs => h (List.mem_cons_of_mem c hcs)) _ _

/-- What a read shows if it stops. -/
def Shown.of (str : Bytes) : Shown := ⟨str, str.count space⟩

theorem procInfoShow_of_mem {readStr : ReadStr} (h : 0 ∈ readStr.bytes) :
    procInfoShow readStr = some (.of (text readStr.bytes)) := by
  simp [procInfoShow, countSpaces_of_mem h, Shown.of]

theorem procInfoShow_of_not_mem {readStr : ReadStr}
    (h : 0 ∉ readStr.bytes) : procInfoShow readStr = none := by
  simp [procInfoShow, countSpaces_of_not_mem h]

/-! ## What a write leaves -/

/-- The bytes that a write asks for. -/
def asked (ubuf : Bytes) : Bytes := ubuf.take bufSize

theorem length_asked (ubuf : Bytes) :
    (asked ubuf).length =
      if ubuf.length > bufSize then bufSize else ubuf.length := by
  unfold asked
  rw [List.length_take]
  split <;> omega

theorem length_asked_le (ubuf : Bytes) : (asked ubuf).length ≤ bufSize := by
  rw [length_asked]
  split <;> omega

@[simp] theorem take_length_asked (ubuf : Bytes) :
    ubuf.take (asked ubuf).length = asked ubuf := by
  unfold asked
  rw [List.length_take, List.take_eq_take_iff]
  omega

theorem procInfoWrite_failed {readStr : ReadStr} {ubuf : Bytes} {left : Nat}
    (h : notCopied (asked ubuf) left ≠ 0) :
    procInfoWrite readStr ubuf left =
      (readStr.store (received (asked ubuf) left), -efault) := by
  simp only [procInfoWrite, ← length_asked, take_length_asked]
  rw [if_pos h]

/-- Less one newline at the end. -/
def chomp (b : Bytes) : Bytes :=
  if b.getLast? = some newline then b.dropLast else b

/-- `read_str[len] = '\0'` after the copy. -/
theorem bytes_ended (readStr : ReadStr) (ubuf : Bytes) :
    ((readStr.store (asked ubuf)).set (asked ubuf).length 0).bytes =
      asked ubuf ++ 0 :: readStr.bytes.drop ((asked ubuf).length + 1) := by
  have hle := length_asked_le ubuf
  have hlt : (asked ubuf).length < readStr.bytes.length := by
    rw [readStr.length_eq]
    omega
  show (readStr.store (asked ubuf)).bytes.set (asked ubuf).length 0 = _
  rw [store_of_le _ (by omega), List.drop_eq_getElem_cons hlt,
    List.set_append_right _ _ (Nat.le_refl _), Nat.sub_self]
  rfl

/-- The last byte asked for, looked up in `read_str`. -/
theorem getElem?_ended (a rest : Bytes) (h : 0 < a.length) :
    (a ++ rest)[a.length - 1]? = a.getLast? := by
  rw [List.getElem?_append_left (by omega), List.getLast?_eq_getElem?]

/-- A write that succeeds. -/
theorem procInfoWrite_ok {readStr : ReadStr} {ubuf : Bytes} {left : Nat}
    (h : notCopied (asked ubuf) left = 0) :
    (procInfoWrite readStr ubuf left).2 = ubuf.length ∧
      ∃ k, (procInfoWrite readStr ubuf left).1.bytes =
        chomp (asked ubuf) ++ List.replicate (k + 1) 0 ++
          readStr.bytes.drop ((asked ubuf).length + 1) := by
  have hended := bytes_ended readStr ubuf
  simp only [procInfoWrite, ← length_asked, take_length_asked]
  rw [if_neg (fun hne => hne h), received_of_notCopied h, hended]
  cases hlast : (asked ubuf).getLast? with
  | none =>
      have hnil : asked ubuf = [] := List.getLast?_eq_none_iff.mp hlast
      rw [if_neg (fun hpos => by simp [hnil] at hpos)]
      refine ⟨rfl, 0, ?_⟩
      rw [hended, chomp, hlast, if_neg (by decide)]
      simp
  | some c =>
      have hpos : 0 < (asked ubuf).length := by
        apply List.length_pos_iff.mpr
        intro hnil
        rw [hnil] at hlast
        cases hlast
      rw [getElem?_ended _ _ hpos, hlast, chomp, hlast]
      by_cases hc : some c = some newline
      · rw [if_pos ⟨hpos, hc⟩, if_pos hc]
        refine ⟨rfl, 1, ?_⟩
        obtain ⟨front, hfront⟩ := List.getLast?_eq_some_iff.mp hlast
        have hlen : (asked ubuf).length - 1 = front.length := by
          rw [hfront, List.length_append]
          simp
        show (_ : CBuffer _).bytes.set _ 0 = _
        rw [hended, hlen, hfront, List.dropLast_concat, List.append_assoc,
          List.set_append_right _ _ (Nat.le_refl _), Nat.sub_self]
        simp
      · rw [if_neg (fun hif => hc hif.2), if_neg hc]
        refine ⟨rfl, 0, ?_⟩
        rw [hended]
        simp

/-! ## The last byte -/

/-- The loop of `proc_info_show` has a 0 to stop at. -/
def Terminated (readStr : ReadStr) : Prop := readStr.bytes[bufSize]? = some 0

/-- A `read_str` that ends like `b`. -/
theorem terminated_of_drop {a b : ReadStr} {front : Bytes} {k : Nat}
    (hk : k ≤ bufSize) (hb : Terminated b)
    (h : a.bytes = front ++ b.bytes.drop k) : Terminated a := by
  have hlen := congrArg List.length h
  rw [List.length_append, List.length_drop, a.length_eq, b.length_eq] at hlen
  unfold Terminated at hb ⊢
  rw [h, List.getElem?_append_right (by omega), List.getElem?_drop, ← hb]
  congr 1
  omega

/-- A `read_str` that ends with zeros. -/
theorem terminated_of_replicate {a : ReadStr} {front : Bytes} {k : Nat}
    (h : a.bytes = front ++ List.replicate (k + 1) 0) : Terminated a := by
  have hlen := congrArg List.length h
  rw [List.length_append, List.length_replicate, a.length_eq] at hlen
  unfold Terminated
  rw [h, List.getElem?_append_right (by omega), List.getElem?_replicate,
    if_pos (by omega)]

theorem Terminated.write {readStr : ReadStr} (h : Terminated readStr)
    (ubuf : Bytes) (left : Nat) :
    Terminated (procInfoWrite readStr ubuf left).1 := by
  have hle := length_asked_le ubuf
  by_cases hcopy : notCopied (asked ubuf) left = 0
  · obtain ⟨-, k, hbytes⟩ := procInfoWrite_ok hcopy
    rcases Nat.lt_or_ge (asked ubuf).length bufSize with hlt | hge
    · exact terminated_of_drop (by omega) h hbytes
    · -- all of `read_str` was asked for, and ends with what was set to 0
      have hnone : readStr.bytes.drop ((asked ubuf).length + 1) = [] := by
        apply List.drop_eq_nil_of_le
        rw [readStr.length_eq]
        omega
      rw [hnone, List.append_nil] at hbytes
      exact terminated_of_replicate hbytes
  · rw [procInfoWrite_failed hcopy]
    have hfits : (received (asked ubuf) left).length ≤ bufSize + 1 := by
      rw [length_received]
      omega
    have hbytes := store_of_le readStr hfits
    rw [length_received] at hbytes
    exact terminated_of_drop hle h hbytes

theorem terminated_after (accesses : List Access) :
    Terminated (after accesses) := by
  have hrun : ∀ (readStr : ReadStr) (as : List Access),
      Terminated readStr → Terminated (as.foldl apply readStr) := by
    intro readStr as h
    induction as generalizing readStr with
    | nil => exact h
    | cons a as ih =>
        apply ih
        cases a with
        | write ubuf left => exact h.write ubuf left
        | read => exact h
  exact hrun _ accesses rfl

theorem Terminated.mem {readStr : ReadStr} (h : Terminated readStr) :
    0 ∈ readStr.bytes :=
  List.mem_of_getElem? h

/-- The loop stops in the array. -/
theorem Terminated.stops {readStr : ReadStr} (h : Terminated readStr) :
    ∃ i count, countSpaces readStr.bytes 0 0 = some (i, count) ∧
      i ≤ bufSize := by
  refine ⟨_, _, countSpaces_of_mem h.mem 0 0, ?_⟩
  have hle : (text readStr.bytes).length ≤ readStr.bytes.length :=
    (List.takeWhile_prefix _).length_le
  have hne : (text readStr.bytes).length ≠ readStr.bytes.length := by
    intro heq
    have htext : text readStr.bytes = readStr.bytes :=
      (List.takeWhile_prefix _).eq_of_length heq
    have hmem := h.mem
    rw [← htext] at hmem
    exact nulFree_text readStr.bytes hmem
  rw [readStr.length_eq] at hle hne
  omega

/-! ## What a read shows -/

theorem show_procInfoWrite_ok {readStr : ReadStr} {ubuf : Bytes} {left : Nat}
    (h : notCopied (asked ubuf) left = 0) :
    procInfoShow (procInfoWrite readStr ubuf left).1 =
      some (.of (text (chomp (asked ubuf)))) := by
  obtain ⟨-, k, hbytes⟩ := @procInfoWrite_ok readStr ubuf left h
  rw [List.replicate_succ, List.append_assoc, List.cons_append] at hbytes
  rw [procInfoShow_of_mem, hbytes, text_append_zero]
  rw [hbytes]
  exact List.mem_append_right _ List.mem_cons_self

/-- A write that does not return an error has copied all it asked for. -/
theorem notCopied_of_returned {readStr : ReadStr} {ubuf : Bytes} {left : Nat}
    (h : 0 ≤ (procInfoWrite readStr ubuf left).2) :
    notCopied (asked ubuf) left = 0 := by
  by_cases hcopy : notCopied (asked ubuf) left = 0
  · exact hcopy
  · rw [procInfoWrite_failed hcopy] at h
    have hneg : (0 : Int) ≤ -efault := h
    exact absurd hneg (by decide)

/-- The last byte of `read_str` is 0 at any time, so the loop of
`proc_info_show` stops there at the latest; and a read that follows a
successful write, however many reads there are in between, shows the first 50
bytes of it, less a newline at their end, up to the first NUL. -/
theorem read_back :
    (∀ accesses, Terminated (after accesses) ∧
      ∃ i count, countSpaces (after accesses).bytes 0 0 = some (i, count) ∧
        i ≤ bufSize) ∧
      ∀ (accesses : List Access) (w : Bytes) (left reads : Nat),
        0 ≤ (procInfoWrite (after accesses) w left).2 →
        procInfoShow (after (accesses ++
          .write w left :: List.replicate reads .read)) =
            some (.of (text (chomp (w.take bufSize)))) := by
  constructor
  · intro accesses
    have h := terminated_after accesses
    exact ⟨h, h.stops⟩
  · intro accesses w left reads hret
    have hreads : ∀ readStr : ReadStr,
        (List.replicate reads Access.read).foldl apply readStr = readStr := by
      intro readStr
      induction reads with
      | zero => rfl
      | succ reads ih => exact ih
    have hafter : after (accesses ++
        .write w left :: List.replicate reads .read) =
          (procInfoWrite (after accesses) w left).1 := by
      unfold after
      rw [List.foldl_append, List.foldl_cons, hreads]
      rfl
    rw [hafter]
    exact show_procInfoWrite_ok (notCopied_of_returned hret)

/-- A short write, one that fails in the middle, and one that is too long,
which is read twice. -/
def mixedAccesses : List Access :=
  [ .write (ascii "a b\n") 0, .read, .write (ascii "fault") 3, .read ]

theorem read_back_mixedAccesses :
    (after mixedAccesses).bytes[bufSize]? = some 0 ∧
      procInfoShow (after (mixedAccesses ++ .write (ascii "one two three\n") 0
        :: List.replicate 2 .read)) = some ⟨ascii "one two three", 2⟩ := by
  refine ⟨(read_back.1 mixedAccesses).1, ?_⟩
  have hshow := read_back.2 mixedAccesses (ascii "one two three\n") 0 2
    (by decide +kernel)
  rw [hshow]
  decide +kernel

/-! ## Writes that fail -/

/-- The bytes that were copied before the fault. -/
def arrived (ubuf : Bytes) (left : Nat) : Bytes :=
  (asked ubuf).take ((asked ubuf).length - left)

theorem show_failed {readStr : ReadStr} {ubuf : Bytes} {left : Nat}
    (h : notCopied (asked ubuf) left ≠ 0) :
    procInfoShow (procInfoWrite readStr ubuf left).1 =
      some (.of (text (arrived ubuf left))) := by
  have hle := length_asked_le ubuf
  have hfits : (received (asked ubuf) left).length ≤ bufSize + 1 := by
    rw [length_received]
    omega
  have hbytes := store_of_le readStr hfits
  obtain ⟨k, hk⟩ := Nat.exists_eq_succ_of_ne_zero h
  unfold notCopied at hk
  rw [received, hk, List.replicate_succ, List.append_assoc,
    List.cons_append] at hbytes
  rw [procInfoWrite_failed h, received, hk, List.replicate_succ]
  rw [procInfoShow_of_mem, hbytes, text_append_zero]
  · rfl
  · rw [hbytes]
    exact List.mem_append_right _ List.mem_cons_self

/-- A failed write shows up in the next read, except where the bytes that
have arrived are the string that was there. -/
theorem failed_write_iff (readStr : ReadStr) {ubuf : Bytes} {left : Nat}
    (h : notCopied (asked ubuf) left ≠ 0) :
    (procInfoWrite readStr ubuf left).2 = -efault ∧
        procInfoShow (procInfoWrite readStr ubuf left).1 =
          procInfoShow readStr ↔
      text (arrived ubuf left) = text readStr.bytes := by
  have hret : (procInfoWrite readStr ubuf left).2 = -efault := by
    rw [procInfoWrite_failed h]
  rw [show_failed h, and_iff_right hret]
  by_cases hmem : 0 ∈ readStr.bytes
  · rw [procInfoShow_of_mem hmem]
    constructor
    · intro heq
      exact congrArg Shown.str (Option.some.inj heq)
    · intro heq
      rw [heq]
  · -- All of `read_str` is more than can arrive.
    rw [procInfoShow_of_not_mem hmem, text_eq_self hmem]
    refine iff_of_false (fun heq => by cases heq) ?_
    intro heq
    have hle : (text (arrived ubuf left)).length ≤ bufSize :=
      calc (text (arrived ubuf left)).length
          ≤ (arrived ubuf left).length := (List.takeWhile_prefix _).length_le
        _ ≤ (asked ubuf).length := (List.take_prefix _ _).length_le
        _ ≤ bufSize := length_asked_le ubuf
    rw [heq, readStr.length_eq] at hle
    omega

/-- The fault comes after the string that was there before, and a NUL. -/
theorem failed_write_iff_sameAgain :
    procInfoShow (procInfoWrite (after [.write (ascii "a b") 0])
        (ascii "a b" ++ 0 :: ascii "cd") 2).1 =
      procInfoShow (after [.write (ascii "a b") 0]) :=
  ((failed_write_iff (after [.write (ascii "a b") 0])
    (by decide +kernel)).mpr (by decide +kernel)).2

/-- A read shows the one byte that has arrived of the failed write. -/
theorem failed_write_shows :
    (procInfoWrite (after [.write (ascii "a b") 0]) (ascii "xyz") 2).2 =
        -efault ∧
      procInfoShow (after [.write (ascii "a b") 0]) =
        some ⟨ascii "a b", 1⟩ ∧
      procInfoShow (procInfoWrite (after [.write (ascii "a b") 0])
        (ascii "xyz") 2).1 = some ⟨ascii "x", 0⟩ := by
  decide +kernel

end EmbeddedSystem.Labs.Ch11Proc
