import EmbeddedSystem.Labs.SimpleProc

/-!
# Names and values that are too long

`simple_sysfs.c` stores what is written to its attribute with `"%s"`, as
`simple_proc.c` does with a name.  Neither gives a field width, and neither
buffer is as long as what can be written.  `fits_iff` says for both which
writes stay in the buffer.
-/

set_option autoImplicit false

namespace EmbeddedSystem.Labs.SimpleSysfs

open EmbeddedSystem.Verified
open EmbeddedSystem.Verified.CString
open EmbeddedSystem.Verified.CBuffer
open EmbeddedSystem.Verified.Sscanf
open EmbeddedSystem.Labs.SimpleProc

/-- `PAGE_SIZE` -/
def pageSize : Nat := 4096

/-- `sizeof(value)` -/
def valueSize : Nat := 1024

/-- The attribute.  `past` is what the last write has put behind `value`. -/
structure Attr where
  value : CBuffer valueSize
  past : Bytes
deriving DecidableEq, Repr

/-- `simple_sysfs_init` -/
def simpleSysfsInit : Attr := ⟨zeros valueSize, []⟩

/-- `sscanf(..., value)` -/
def assign (attr : Attr) : List Stored → Attr
  | [.string str] =>
      { value := attr.value.store (str ++ [0])
        past := CBuffer.past valueSize (str ++ [0]) }
  | _ => { attr with past := [] }

/-- The new contents and the value returned, `strnlen(buf, PAGE_SIZE)`. -/
def simpleStoreValue (attr : Attr) (buf : CStr) : Attr × Nat :=
  (assign attr (sscanf [.string] buf.bytes),
    min buf.bytes.length pageSize)

/-- The value and a newline, as much of it as fits a page with its NUL; `none`
if there is no NUL in the array. -/
def simpleShowValue (attr : Attr) : Option Bytes :=
  if 0 ∈ attr.value.bytes then
    some ((text attr.value.bytes ++ [newline]).take (pageSize - 1))
  else none

/-! ## Values -/

theorem simpleStoreValue_string {attr : Attr} {buf : CStr}
    (h : buf.bytes ≠ []) :
    (simpleStoreValue attr buf).1 =
      { value := attr.value.store (token (skipSpaces buf.bytes) ++ [0])
        past := past valueSize (token (skipSpaces buf.bytes) ++ [0]) } := by
  simp only [simpleStoreValue, sscanf, scanString, if_neg h, assign]

/-- Nothing is written behind `value`. -/
theorem simpleStoreValue_fits_iff (attr : Attr) (buf : CStr) :
    (simpleStoreValue attr buf).1.past = [] ↔
      Short valueSize (skipSpaces buf.bytes) := by
  have hfits : valueSize ≤ shrtMax := by decide
  by_cases hnil : buf.bytes = []
  · refine iff_of_true ?_ (Or.inl ?_)
    · rw [simpleStoreValue, hnil]
      rfl
    · rw [hnil]
      exact Nat.zero_lt_succ _
  · rw [simpleStoreValue_string hnil, past_eq_nil_iff, List.length_append,
      ← length_token_lt_iff hfits]
    exact Iff.rfl

/-- A value that fits is what the next read shows. -/
theorem simpleShowValue_store (attr : Attr) {buf : CStr}
    (h : buf.bytes ≠ []) (hshort : Short valueSize (skipSpaces buf.bytes)) :
    simpleShowValue (simpleStoreValue attr buf).1 =
      some (token (skipSpaces buf.bytes) ++ [newline]) := by
  have hlt : (token (skipSpaces buf.bytes)).length < valueSize :=
    (length_token_lt_iff (by decide)).mpr hshort
  have hfree : 0 ∉ skipSpaces buf.bytes := fun h0 =>
    buf.nulFree ((List.dropWhile_suffix _).subset h0)
  obtain ⟨hmem, htext⟩ :=
    (holds_store_iff attr.value (nulFree_token hfree)).mpr ⟨hlt, rfl⟩
  rw [simpleStoreValue_string h, simpleShowValue, if_pos hmem, htext,
    List.take_of_length_le]
  rw [List.length_append, List.length_singleton]
  unfold valueSize at hlt
  unfold pageSize
  omega

/-! ## Names -/

/-- Nothing is written behind `name`. -/
theorem procInfoWrite_fits_iff (layout : Layout) (g : Proc) {w : Bytes}
    {left : Nat} (stack : Bytes) (hlen : w.length ≤ bufSize)
    (hcopy : notCopied w left = 0) :
    (procInfoWrite layout g w left stack).1.past = [] ↔
      ∀ u ∈ nameAt (text (w ++ stack)), Short nameSize u := by
  have hfits : nameSize ≤ shrtMax := by decide
  rw [procInfoWrite_ok layout g stack hlen hcopy]
  cases hscan : scanInt (text (w ++ stack)) with
  | none =>
      rw [sscanf_none hscan]
      refine iff_of_true rfl ?_
      intro u hu
      simp [nameAt, hscan] at hu
  | some x =>
      obtain ⟨val, rest⟩ := x
      have hname : nameAt (text (w ++ stack)) = some (skipSpaces rest) := by
        simp [nameAt, hscan]
      have hforall : (∀ u ∈ nameAt (text (w ++ stack)), Short nameSize u) ↔
          Short nameSize (skipSpaces rest) := by
        rw [hname]
        exact ⟨fun h => h _ rfl, fun h u hu => Option.mem_some_iff.mp hu ▸ h⟩
      rw [hforall]
      by_cases hnil : skipSpaces rest = []
      · rw [sscanf_int hscan hnil, hnil]
        exact iff_of_true rfl (Or.inl (by decide))
      · rw [sscanf_name hscan hnil, ← length_token_lt_iff hfits]
        show past nameSize (token (skipSpaces rest) ++ [0]) = [] ↔ _
        rw [past_eq_nil_iff, List.length_append]
        exact Iff.rfl

/-- A write to the proc file stays in `name` exactly if there are less than
100 characters from the beginning of the name up to white space or a NUL; a
write to the attribute stays in `value` exactly if there are less than 1024.
-/
theorem fits_iff (layout : Layout) (g : Proc) (attr : Attr) {w : Bytes}
    {left : Nat} (stack : Bytes) (buf : CStr) (hlen : w.length ≤ bufSize)
    (hcopy : notCopied w left = 0) :
    ((procInfoWrite layout g w left stack).1.past = [] ↔
        ∀ u ∈ nameAt (text (w ++ stack)), Short nameSize u) ∧
      ((simpleStoreValue attr buf).1.past = [] ↔
        Short valueSize (skipSpaces buf.bytes)) :=
  ⟨procInfoWrite_fits_iff layout g stack hlen hcopy,
    simpleStoreValue_fits_iff attr buf⟩

/-- A name and a value of a few letters. -/
theorem fits_iff_short :
    (procInfoWrite .nameFirst loaded (ascii "7 ab\n") 0 []).1.past = [] ∧
      (simpleStoreValue simpleSysfsInit (.ofBuffer (ascii "on\n"))).1.past =
        [] := by
  have hlen : (ascii "7 ab\n").length ≤ bufSize := by decide
  have hcopy : notCopied (ascii "7 ab\n") 0 = 0 := by decide
  have h := fits_iff .nameFirst loaded simpleSysfsInit []
    (.ofBuffer (ascii "on\n")) hlen hcopy
  exact ⟨h.1.mpr (by decide), h.2.mpr (by decide)⟩

/-- `n` times the letter a. -/
def longWord (n : Nat) : Bytes := List.replicate n 97

/-- 102 bytes for the proc file, and 1024 for the attribute: the NUL of each
does not fit. -/
theorem fits_iff_fails :
    (procInfoWrite .nameFirst loaded (ascii "1 " ++ longWord 100) 0
        [0]).1.past = [0] ∧
      (simpleStoreValue simpleSysfsInit (.ofBuffer (longWord 1024))).1.past =
        [0] := by
  decide +kernel

end EmbeddedSystem.Labs.SimpleSysfs
