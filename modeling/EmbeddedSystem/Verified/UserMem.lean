import EmbeddedSystem.Verified.CBuffer

/-!
# User memory

The byte at each address, and what a tracing program in the kernel reads and
writes there.  `stored` are the addresses of all stores so far: a store of the
byte that is there already changes nothing, but it is a store.
-/

set_option autoImplicit false

namespace EmbeddedSystem.Verified

open EmbeddedSystem.Verified.CString

structure UserMem where
  byte : Nat → UInt8
  stored : List Nat

namespace UserMem

/-- The `n` bytes from `addr` on. -/
def load (m : UserMem) (addr : Nat) : Nat → Bytes
  | 0 => []
  | n + 1 => m.byte addr :: m.load (addr + 1) n

def store (m : UserMem) (addr : Nat) (b : UInt8) : UserMem where
  byte a := if a = addr then b else m.byte a
  stored := m.stored ++ [addr]

/-- The bytes of `src`, stored one after the other from `addr` on. -/
def write (m : UserMem) (addr : Nat) : Bytes → UserMem
  | [] => m
  | b :: src => (m.store addr b).write (addr + 1) src

/-! ## What is there after a write -/

@[simp] theorem length_load (m : UserMem) (addr n : Nat) :
    (m.load addr n).length = n := by
  induction n generalizing addr with
  | zero => rfl
  | succ n ih => rw [load, List.length_cons, ih]

theorem load_add (m : UserMem) (addr n k : Nat) :
    m.load addr (n + k) = m.load addr n ++ m.load (addr + n) k := by
  induction n generalizing addr with
  | zero => rw [Nat.zero_add, Nat.add_zero, load, List.nil_append]
  | succ n ih =>
      rw [Nat.succ_add, load, load, ih, List.cons_append,
        show addr + 1 + n = addr + (n + 1) from by omega]

theorem take_load (m : UserMem) (addr : Nat) {n k : Nat} (h : k ≤ n) :
    (m.load addr n).take k = m.load addr k := by
  obtain ⟨rest, rfl⟩ := Nat.exists_eq_add_of_le h
  rw [load_add, List.take_left' (length_load m addr k)]

/-- Two memories that agree on a range load the same from it. -/
theorem load_congr {m m' : UserMem} {addr n : Nat}
    (h : ∀ a, addr ≤ a → a < addr + n → m'.byte a = m.byte a) :
    m'.load addr n = m.load addr n := by
  induction n generalizing addr with
  | zero => rfl
  | succ n ih =>
      have hhead := h addr (by omega) (by omega)
      have htail : m'.load (addr + 1) n = m.load (addr + 1) n :=
        ih fun a hlo hhi => h a (by omega) (by omega)
      rw [load, load, hhead, htail]

/-- Nothing changes outside of what is written. -/
theorem byte_write_of_outside (m : UserMem) {addr a : Nat} {src : Bytes}
    (h : a < addr ∨ addr + src.length ≤ a) :
    (m.write addr src).byte a = m.byte a := by
  induction src generalizing m addr with
  | nil => rfl
  | cons b src ih =>
      rw [List.length_cons] at h
      rw [write, ih (m.store addr b) (by omega)]
      exact if_neg (by omega)

/-- The bytes that were written are there. -/
theorem load_write (m : UserMem) (addr : Nat) (src : Bytes) :
    (m.write addr src).load addr src.length = src := by
  induction src generalizing m addr with
  | nil => rfl
  | cons b src ih =>
      have hhead : ((m.store addr b).write (addr + 1) src).byte addr = b := by
        rw [byte_write_of_outside _ (by omega)]
        exact if_pos rfl
      rw [write, List.length_cons, load, hhead, ih]

/-- And behind them what was there before. -/
theorem load_write_append (m : UserMem) (addr : Nat) {src : Bytes} {n : Nat}
    (h : src.length ≤ n) :
    (m.write addr src).load addr n =
      src ++ (m.load addr n).drop src.length := by
  obtain ⟨rest, rfl⟩ := Nat.exists_eq_add_of_le h
  have hbehind : (m.write addr src).load (addr + src.length) rest =
      m.load (addr + src.length) rest :=
    load_congr fun a hlo _ => byte_write_of_outside m (Or.inr hlo)
  rw [load_add, load_write, hbehind, load_add,
    List.drop_left' (length_load m addr src.length)]

/-- A write changes nothing if and only if its bytes were there already. -/
theorem byte_write_eq_iff (m : UserMem) (addr : Nat) (src : Bytes) :
    (m.write addr src).byte = m.byte ↔ m.load addr src.length = src := by
  constructor
  · intro h
    have hsame : (m.write addr src).load addr src.length =
        m.load addr src.length := load_congr fun a _ _ => congrFun h a
    rw [← hsame, load_write]
  · intro h
    induction src generalizing m addr with
    | nil => rfl
    | cons b src ih =>
        rw [List.length_cons, load, List.cons.injEq] at h
        have hstore : (m.store addr b).byte = m.byte := by
          funext a
          show (if a = addr then b else m.byte a) = m.byte a
          split
          · next ha => rw [ha, h.1]
          · rfl
        have htail : (m.store addr b).load (addr + 1) src.length = src := by
          rw [load_congr fun a _ _ => congrFun hstore a, h.2]
        rw [write, ih _ _ htail, hstore]

theorem stored_write (m : UserMem) (addr : Nat) (src : Bytes) :
    (m.write addr src).stored =
      m.stored ++ List.range' addr src.length := by
  induction src generalizing m addr with
  | nil => exact (List.append_nil m.stored).symm
  | cons b src ih =>
      rw [write, ih, List.length_cons, List.range'_succ]
      show (m.stored ++ [addr]) ++ _ = _
      rw [List.append_assoc, List.singleton_append]

/-! ## Strings -/

/-- The string `s` with its NUL is stored at `addr`. -/
def StrAt (m : UserMem) (addr : Nat) (s : CStr) : Prop :=
  m.load addr (s.bytes.length + 1) = s.bytes ++ [0]

instance (m : UserMem) (addr : Nat) (s : CStr) : Decidable (m.StrAt addr s) :=
  inferInstanceAs (Decidable (_ = _))

/-- What a string starts with is what is there. -/
theorem load_of_prefix {m : UserMem} {addr : Nat} {s : CStr} {pre : Bytes}
    (h : m.StrAt addr s) (hpre : pre <+: s.bytes) :
    m.load addr pre.length = pre := by
  have hlen : pre.length ≤ s.bytes.length := hpre.length_le
  rw [← take_load m addr (Nat.le_succ_of_le hlen), h,
    List.take_append_of_le_length hlen]
  exact (List.prefix_iff_eq_take.mp hpre).symm

/-- The `n` bytes where a string starts, up to the string's end. -/
theorem text_load {m : UserMem} {addr : Nat} {s : CStr} (h : m.StrAt addr s)
    (n : Nat) : text (m.load addr n) = s.bytes.take n := by
  rcases Nat.lt_or_ge s.bytes.length n with hlong | hshort
  · obtain ⟨rest, rfl⟩ := Nat.exists_eq_add_of_le hlong
    rw [List.take_of_length_le (by omega), load_add, h, List.append_assoc]
    exact text_append_nul s.nulFree
  · have hload : m.load addr n = s.bytes.take n := by
      rw [← take_load m addr (Nat.le_succ_of_le hshort), h,
        List.take_append_of_le_length hshort]
    rw [hload, text_eq_self fun hmem => s.nulFree (List.mem_of_mem_take hmem)]

/-- A write over the start of a string makes it another string of the same
length. -/
theorem strAt_write_iff {m : UserMem} {addr : Nat} {s t : CStr} {src : Bytes}
    (h : m.StrAt addr s) (hsame : t.bytes.length = s.bytes.length)
    (hle : src.length ≤ s.bytes.length + 1) :
    (m.write addr src).StrAt addr t ↔
      src ++ (s.bytes ++ [0]).drop src.length = t.bytes ++ [0] := by
  rw [StrAt, hsame, load_write_append m addr hle, h]

/-- A string beside what is written stays. -/
theorem StrAt.of_outside {m : UserMem} {addr base : Nat} {s : CStr}
    {src : Bytes} (h : m.StrAt addr s)
    (hout : base + src.length ≤ addr ∨
      addr + s.bytes.length + 1 ≤ base) :
    (m.write base src).StrAt addr s := by
  have hsame : (m.write base src).load addr (s.bytes.length + 1) =
      m.load addr (s.bytes.length + 1) :=
    load_congr fun a hlo hhi => byte_write_of_outside m (by omega)
  rw [StrAt, hsame]
  exact h

/-- A string that was written is there. -/
theorem strAt_write (m : UserMem) (addr : Nat) (s : CStr) (rest : Bytes) :
    (m.write addr (s.bytes ++ 0 :: rest)).StrAt addr s := by
  have hload := load_write m addr (s.bytes ++ 0 :: rest)
  have hlen : s.bytes.length + 1 ≤ (s.bytes ++ 0 :: rest).length := by
    rw [List.length_append, List.length_cons]
    omega
  rw [StrAt, ← take_load _ addr hlen, hload, List.take_append,
    List.take_of_length_le (Nat.le_succ _), Nat.add_sub_cancel_left]
  rfl

/-! ## The helpers of a tracing program -/

variable {n : Nat}

/-- `bpf_probe_read_user_str(buffer, n, addr)`: as much of the string as fits
in front of a NUL.  A fault leaves only zeros. -/
def bpfProbeReadUserStr (m : UserMem) (buffer : CBuffer n) (addr : Nat)
    (fault : Bool) : CBuffer n :=
  if fault then CBuffer.zeros n
  else buffer.store (text (m.load addr (n - 1)) ++ [0])

/-- `bpf_probe_write_user(addr, src, sizeof(src))`, which cannot write the
last `left` bytes. -/
def bpfProbeWriteUser (m : UserMem) (addr : Nat) (src : Bytes) (left : Nat) :
    UserMem :=
  m.write addr (src.take (src.length - left))

/-- A string that is read starts with `pre` if and only if it does so in the
buffer. -/
theorem prefix_bpfProbeReadUserStr_iff {m : UserMem} {addr : Nat} {s : CStr}
    (h : m.StrAt addr s) (buffer : CBuffer n) {pre : Bytes} (hpre : 0 ∉ pre)
    (hlen : pre.length < n) :
    pre <+: (m.bpfProbeReadUserStr buffer addr false).bytes ↔
      pre <+: s.bytes := by
  have hfits : (s.bytes.take (n - 1) ++ [0]).length ≤ n := by
    rw [List.length_append, List.length_take, List.length_singleton]
    omega
  have hbytes : (m.bpfProbeReadUserStr buffer addr false).bytes =
      s.bytes.take (n - 1) ++ 0 :: buffer.bytes.drop
        (s.bytes.take (n - 1) ++ [0]).length := by
    show (buffer.store (text (m.load addr (n - 1)) ++ [0])).bytes = _
    rw [text_load h, CBuffer.store_of_le buffer hfits, List.append_assoc]
    rfl
  rw [hbytes, prefix_append_zero_iff hpre, List.prefix_take_iff]
  exact and_iff_left (by omega)

end UserMem

end EmbeddedSystem.Verified
