/-!
# C strings

Byte strings, the comparison functions of `string.h` and the formatting of
integers with `%d`.  A `CStr` is what a `char *` to a NUL-terminated array
denotes, so it holds no NUL; without that `strcmp` could not tell two strings
apart that differ after a NUL.
-/

set_option autoImplicit false

namespace EmbeddedSystem.Verified.CString

abbrev Bytes := List UInt8

/-- The bytes of an ASCII literal, without its terminator. -/
def ascii (s : String) : Bytes := s.toList.map fun c => UInt8.ofNat c.toNat

def newline : UInt8 := 10

/-- The characters before the terminator of a C string. -/
structure CStr where
  bytes : Bytes
  nulFree : 0 ∉ bytes
deriving DecidableEq, Repr

/-! ## Comparisons -/

/-- The loop of `strcmp`, where the end of a list is the terminator. -/
def compareBytes : Bytes → Bytes → Int
  | [], [] => 0
  | [], b :: _ => -(b.toNat : Int)
  | a :: _, [] => a.toNat
  | a :: as, b :: bs =>
      if a = b then compareBytes as bs else (a.toNat : Int) - b.toNat

def strcmp (s t : CStr) : Int := compareBytes s.bytes t.bytes

theorem toNat_ne_zero {b : UInt8} (h : b ≠ 0) : b.toNat ≠ 0 := by
  intro hz
  apply h
  exact UInt8.toNat_inj.mp hz

theorem compareBytes_eq_zero_iff {as bs : Bytes} (ha : 0 ∉ as)
    (hb : 0 ∉ bs) : compareBytes as bs = 0 ↔ as = bs := by
  induction as generalizing bs with
  | nil =>
      cases bs with
      | nil => exact iff_of_true rfl rfl
      | cons b bs =>
          have hne : b.toNat ≠ 0 := by
            apply toNat_ne_zero
            intro hz
            exact hb (hz ▸ List.mem_cons_self)
          refine iff_of_false ?_ (fun h => by cases h)
          show ¬ -(b.toNat : Int) = 0
          omega
  | cons a as ih =>
      have ha' : 0 ∉ as := fun h => ha (List.mem_cons_of_mem a h)
      cases bs with
      | nil =>
          have hne : a.toNat ≠ 0 := by
            apply toNat_ne_zero
            intro hz
            exact ha (hz ▸ List.mem_cons_self)
          refine iff_of_false ?_ (fun h => by cases h)
          show ¬ (a.toNat : Int) = 0
          omega
      | cons b bs =>
          have hb' : 0 ∉ bs := fun h => hb (List.mem_cons_of_mem b h)
          unfold compareBytes
          by_cases hab : a = b
          · rw [if_pos hab, ih ha' hb', hab, List.cons.injEq]
            exact ⟨fun h => ⟨rfl, h⟩, fun h => h.2⟩
          · rw [if_neg hab, List.cons.injEq]
            refine iff_of_false ?_ (fun h => hab h.1)
            intro hz
            apply hab
            apply UInt8.toNat_inj.mp
            omega

/-- `strcmp` returns 0 for equal strings only. -/
theorem strcmp_eq_zero_iff (s t : CStr) :
    strcmp s t = 0 ↔ s.bytes = t.bytes :=
  compareBytes_eq_zero_iff s.nulFree t.nulFree

/-- `memcmp` of the first `n` bytes of two blocks. -/
def memcmp : Bytes → Bytes → Nat → Int
  | a :: as, b :: bs, n + 1 =>
      if a = b then memcmp as bs n else (a.toNat : Int) - b.toNat
  | _, _, _ => 0

/-- Two blocks of length `n` with `memcmp` 0 are equal. -/
theorem memcmp_eq_zero_iff {as bs : Bytes} {n : Nat} (ha : as.length = n)
    (hb : bs.length = n) : memcmp as bs n = 0 ↔ as = bs := by
  induction n generalizing as bs with
  | zero =>
      rw [List.length_eq_zero_iff.mp ha, List.length_eq_zero_iff.mp hb]
      exact iff_of_true rfl rfl
  | succ n ih =>
      cases as with
      | nil => cases ha
      | cons a as =>
          cases bs with
          | nil => cases hb
          | cons b bs =>
              rw [List.length_cons, Nat.succ.injEq] at ha hb
              unfold memcmp
              by_cases hab : a = b
              · rw [if_pos hab, ih ha hb, hab, List.cons.injEq]
                exact ⟨fun h => ⟨rfl, h⟩, fun h => h.2⟩
              · rw [if_neg hab, List.cons.injEq]
                refine iff_of_false ?_ (fun h => hab h.1)
                intro hz
                apply hab
                apply UInt8.toNat_inj.mp
                omega

/-! ## Buffers -/

/-- The characters of a buffer before its first NUL. -/
def text (buffer : Bytes) : Bytes := buffer.takeWhile (· ≠ 0)

theorem nulFree_text (buffer : Bytes) : 0 ∉ text buffer := by
  intro h
  have hall := List.all_takeWhile (l := buffer) (p := (· ≠ (0 : UInt8)))
  simpa using List.all_eq_true.mp hall 0 h

/-- Nothing behind a NUL counts. -/
theorem text_append_of_mem {a : Bytes} (b : Bytes) (h : 0 ∈ a) :
    text (a ++ b) = text a := by
  induction a with
  | nil => exact absurd h List.not_mem_nil
  | cons c a ih =>
      rw [List.cons_append]
      by_cases hc : c = 0
      · simp [text, hc]
      · have ha : 0 ∈ a := by
          rcases List.mem_cons.mp h with h0 | ha
          · exact absurd h0.symm hc
          · exact ha
        simpa [text, hc] using ih ha

/-- Bytes before the first NUL. -/
theorem text_append_of_not_mem {a : Bytes} (b : Bytes) (h : 0 ∉ a) :
    text (a ++ b) = a ++ text b := by
  apply List.takeWhile_append_of_pos
  intro c hc
  apply decide_eq_true
  rintro rfl
  exact h hc

theorem text_eq_self {a : Bytes} (h : 0 ∉ a) : text a = a := by
  have happ := text_append_of_not_mem [] h
  rw [List.append_nil] at happ
  rw [happ]
  exact List.append_nil a

/-- The C string that a buffer with a NUL in it holds. -/
def CStr.ofBuffer (buffer : Bytes) : CStr where
  bytes := text buffer
  nulFree := nulFree_text buffer

/-- The `n` bytes that `strncpy` writes: at most `n` bytes of the string, and
NULs for the rest. -/
def strncpy (n : Nat) (src : CStr) : Bytes :=
  src.bytes.take n ++ List.replicate (n - src.bytes.length) 0

theorem length_strncpy (n : Nat) (src : CStr) :
    (strncpy n src).length = n := by
  unfold strncpy
  rw [List.length_append, List.length_take, List.length_replicate]
  omega

/-- A NUL ends whatever stands before it. -/
theorem text_append_zero (a rest : Bytes) :
    text (a ++ 0 :: rest) = text a := by
  by_cases h : 0 ∈ a
  · exact text_append_of_mem _ h
  · rw [text_append_of_not_mem _ h, text_eq_self h]
    exact List.append_nil a

/-- A buffer that starts with NUL-free bytes and a NUL. -/
theorem text_append_nul {bytes rest : Bytes} (h : 0 ∉ bytes) :
    text (bytes ++ 0 :: rest) = bytes := by
  rw [text_append_zero, text_eq_self h]

/-- What holds no NUL cannot go on behind one. -/
theorem prefix_append_zero_iff {pre a rest : Bytes} (h : 0 ∉ pre) :
    pre <+: a ++ 0 :: rest ↔ pre <+: a := by
  induction a generalizing pre with
  | nil =>
      cases pre with
      | nil => exact iff_of_true List.nil_prefix List.nil_prefix
      | cons b pre =>
          refine iff_of_false ?_ (fun hp => by cases List.prefix_nil.mp hp)
          intro hp
          have hb : b = 0 := (List.cons_prefix_cons.mp hp).1
          exact h (hb ▸ List.mem_cons_self)
  | cons c a ih =>
      cases pre with
      | nil => exact iff_of_true List.nil_prefix List.nil_prefix
      | cons b pre =>
          have hpre : 0 ∉ pre := fun hmem => h (List.mem_cons_of_mem b hmem)
          rw [List.cons_append, List.cons_prefix_cons, List.cons_prefix_cons,
            ih hpre]

/-- With a NUL behind it, the copy is the first `n` bytes of the string. -/
theorem text_strncpy (n : Nat) (src : CStr) :
    text (strncpy n src ++ [0]) = src.bytes.take n := by
  have hfree : 0 ∉ src.bytes.take n :=
    fun h => src.nulFree (List.mem_of_mem_take h)
  unfold strncpy
  rw [List.append_assoc]
  cases n - src.bytes.length with
  | zero => exact text_append_nul hfree
  | succ k => exact text_append_nul hfree

/-! ## Formatting -/

/-- What `%d` prints. -/
def decimal (n : Int) : Bytes :=
  let digits := (Nat.toDigits 10 n.natAbs).map fun c => UInt8.ofNat c.toNat
  if n < 0 then ascii "-" ++ digits else digits

/-- The buffer that `snprintf` fills: as much of the text as fits, and the
terminator. -/
def snprintf (size : Nat) (text : Bytes) : Bytes := text.take (size - 1) ++ [0]

/-- The number of bytes before the first NUL. -/
def strlen (buffer : Bytes) : Nat := (buffer.takeWhile (· ≠ 0)).length

/-- A text that fits is stored as it is, and `strlen` measures it. -/
theorem take_strlen_snprintf {size : Nat} {text : Bytes}
    (hfits : text.length < size) (hnul : 0 ∉ text) :
    (snprintf size text).take (strlen (snprintf size text)) = text := by
  have hlen : strlen (text ++ [0]) = text.length :=
    congrArg List.length (text_append_nul hnul)
  have hwhole : snprintf size text = text ++ [0] := by
    unfold snprintf
    rw [List.take_of_length_le (by omega)]
  rw [hwhole, hlen, List.take_left]

/-- A digit's code is between 48 and 57. -/
theorem digit_range {n : Nat} {c : Char} (h : c ∈ Nat.toDigits 10 n) :
    48 ≤ c.toNat ∧ c.toNat ≤ 57 := by
  have hdigit := Nat.isDigit_of_mem_toDigits (by decide) (by decide) h
  simp only [Char.isDigit, Bool.and_eq_true, decide_eq_true_eq] at hdigit
  exact ⟨hdigit.1, hdigit.2⟩

theorem nulFree_decimal (n : Int) : 0 ∉ decimal n := by
  have hdigits : (0 : UInt8) ∉
      (Nat.toDigits 10 n.natAbs).map fun c => UInt8.ofNat c.toNat := by
    intro hmem
    obtain ⟨c, hc, hz⟩ := List.mem_map.mp hmem
    have hrange := digit_range hc
    have hnat := congrArg UInt8.toNat hz
    simp only [UInt8.toNat_ofNat', UInt8.toNat_zero] at hnat
    omega
  unfold decimal
  dsimp only
  split
  · rw [List.mem_append]
    rintro (hminus | hmem)
    · exact absurd hminus (by decide)
    · exact hdigits hmem
  · exact hdigits

/-- A 32-bit integer takes at most 11 characters. -/
theorem length_decimal_le {n : Int} (hlo : -0x80000000 ≤ n)
    (hhi : n < 0x80000000) : (decimal n).length ≤ 11 := by
  have hdigits : (Nat.toDigits 10 n.natAbs).length ≤ 10 := by
    rw [Nat.length_toDigits_le_iff (by decide) (by decide)]
    omega
  have hminus : (ascii "-").length = 1 := by decide
  unfold decimal
  dsimp only
  split
  · rw [List.length_append, List.length_map, hminus]
    omega
  · rw [List.length_map]
    omega

end EmbeddedSystem.Verified.CString
