import EmbeddedSystem.Verified.CString
import Mathlib.Data.List.Basic

/-!
# The kernel's `sscanf`

The directives `%d`, `%s` and white space on a C string.  Every directive
works on what the one before it has left; the first conversion that fails
ends the scan.  `%d` takes an optional minus and digits and drops what does
not fit an `int`; `%s` takes what comes up to the next white space, at most
`SHRT_MAX` characters of it.

The last section says what a scan of `w ++ r` has to do with one of `w`: as
long as the scan does not come to the end of `w`, what follows there does not
matter.
-/

set_option autoImplicit false

namespace EmbeddedSystem.Verified.Sscanf

open EmbeddedSystem.Verified.CString

/-! ## Characters -/

/-- `isspace`; 160 is the no-break space of Latin-1. -/
def isSpace (c : UInt8) : Bool := (9 ≤ c && c ≤ 13) || c == 32 || c == 160

/-- `isdigit` -/
def isDigit (c : UInt8) : Bool := 48 ≤ c && c ≤ 57

def minus : UInt8 := 45

def skipSpaces (str : Bytes) : Bytes := str.dropWhile isSpace

/-! ## Directives -/

/-- `simple_strtoull` in base 10, modulo 2⁶⁴. -/
def simpleStrtoull (str : Bytes) : BitVec 64 :=
  (str.takeWhile isDigit).foldl
    (fun res c => res * 10 + BitVec.ofNat 64 (c.toNat - 48)) 0

/-- Where the digits of a number have to start. -/
def digitsAt (str : Bytes) : Bytes :=
  if (skipSpaces str).head? = some minus then (skipSpaces str).tail
  else skipSpaces str

/-- `%d`: the `int` that is stored, and what is left of the string. -/
def scanInt (str : Bytes) : Option (BitVec 32 × Bytes) :=
  if (digitsAt str).head?.any isDigit then
    let val := simpleStrtoull (digitsAt str)
    some ((if (skipSpaces str).head? = some minus then -val else val).setWidth 32,
      (digitsAt str).dropWhile isDigit)
  else none

/-- The largest field width. -/
def shrtMax : Nat := 32767

/-- The characters up to the next white space. -/
def token (str : Bytes) : Bytes :=
  (str.takeWhile fun c => !isSpace c).take shrtMax

/-- `%s`: the characters that are stored in front of a NUL, and what is left
of the string. -/
def scanString (str : Bytes) : Option (Bytes × Bytes) :=
  if str = [] then none
  else
    let stored := token (skipSpaces str)
    some (stored, (skipSpaces str).drop stored.length)

inductive Directive where
  | white
  | int
  | string
deriving DecidableEq, Repr

/-- What a conversion stores. -/
inductive Stored where
  | int (val : BitVec 32)
  | string (token : Bytes)
deriving DecidableEq, Repr

/-- What the conversions store, one after another. -/
def sscanf : List Directive → Bytes → List Stored
  | [], _ => []
  | .white :: fmt, str => sscanf fmt (skipSpaces str)
  | .int :: fmt, str =>
      match scanInt str with
      | none => []
      | some (val, rest) => .int val :: sscanf fmt rest
  | .string :: fmt, str =>
      match scanString str with
      | none => []
      | some (token, rest) => .string token :: sscanf fmt rest

/-! ## Tokens -/

/-- A run of characters that ends in `w`, or at its end. -/
theorem span_append {p : UInt8 → Bool} {w r : Bytes}
    (h : w.dropWhile p ≠ [] ∨ ∀ c ∈ r.head?, p c = false) :
    (w ++ r).takeWhile p = w.takeWhile p ∧
      (w ++ r).dropWhile p = w.dropWhile p ++ r := by
  induction w with
  | nil =>
      have hr : ∀ c ∈ r.head?, p c = false := h.resolve_left fun h => h rfl
      cases r with
      | nil => exact ⟨rfl, rfl⟩
      | cons c r =>
          have hc : p c = false := hr c rfl
          simp [hc]
  | cons c w ih =>
      cases hc : p c with
      | false => simp [hc]
      | true =>
          have hw := ih (by simpa [hc] using h)
          simp [hc, hw.1, hw.2]

theorem skipSpaces_idem (str : Bytes) :
    skipSpaces (skipSpaces str) = skipSpaces str := by
  have hhead := List.head?_dropWhile_not isSpace str
  unfold skipSpaces
  cases hs : str.dropWhile isSpace with
  | nil => rfl
  | cons c cs =>
      rw [hs, List.head?_cons] at hhead
      rw [List.dropWhile_cons_of_neg (by simpa using hhead)]

theorem nulFree_token {str : Bytes} (h : 0 ∉ str) : 0 ∉ token str := by
  intro hmem
  exact h ((List.takeWhile_prefix _).subset (List.mem_of_mem_take hmem))

/-- The string or its first white space ends before it has `n` characters. -/
def Short (n : Nat) (str : Bytes) : Prop :=
  str.length < n ∨ ∃ c ∈ str.take n, isSpace c = true

instance (n : Nat) (str : Bytes) : Decidable (Short n str) :=
  inferInstanceAs (Decidable (_ ∨ _))

/-- So does the token. -/
theorem length_token_lt_iff {str : Bytes} {n : Nat} (hn : n ≤ shrtMax) :
    (token str).length < n ↔ Short n str := by
  have hspan : (str.takeWhile fun c => !isSpace c).length < n ↔
      Short n str := by
    clear hn
    unfold Short
    induction str generalizing n with
    | nil => simp
    | cons c str ih =>
        cases n with
        | zero => simp
        | succ n =>
            cases hc : isSpace c with
            | true => simp [hc]
            | false => simp [hc, ih]
  rw [← hspan, token, List.length_take]
  omega

/-- The token ends before what follows. -/
theorem token_append_of_space {u : Bytes} (t : Bytes)
    (h : ∃ c ∈ u, isSpace c = true) : token (u ++ t) = token u := by
  obtain ⟨c, hc, hspace⟩ := h
  have hdrop : (u.dropWhile fun c => !isSpace c) ≠ [] := by
    intro hnil
    have hself := List.takeWhile_append_dropWhile
      (p := fun c => !isSpace c) (l := u)
    rw [hnil, List.append_nil] at hself
    have hall := List.all_takeWhile (p := fun c => !isSpace c) (l := u)
    rw [hself] at hall
    have hc' := List.all_eq_true.mp hall c hc
    simp [hspace] at hc'
  unfold token
  rw [(span_append (Or.inl hdrop)).1]

/-- It goes on into what follows. -/
theorem token_append_of_no_space {u : Bytes} (t : Bytes)
    (h : ¬ ∃ c ∈ u, isSpace c = true) :
    token (u ++ t) = (u ++ t.takeWhile fun c => !isSpace c).take shrtMax := by
  unfold token
  rw [List.takeWhile_append_of_pos]
  intro c hc
  cases hspace : isSpace c with
  | false => rfl
  | true => exact absurd ⟨c, hc, hspace⟩ h

theorem token_eq_self {u : Bytes} (h : ¬ ∃ c ∈ u, isSpace c = true)
    (hlen : u.length ≤ shrtMax) : token u = u := by
  have happ := token_append_of_no_space [] h
  rw [List.append_nil, List.takeWhile_nil, List.append_nil] at happ
  rw [happ, List.take_of_length_le hlen]

/-- What follows does not add to the token. -/
theorem token_append_eq_iff {u : Bytes} (t : Bytes)
    (hlen : u.length < shrtMax) :
    token (u ++ t) = token u ↔
      (∃ c ∈ u, isSpace c = true) ∨ ∀ c ∈ t.head?, isSpace c = true := by
  by_cases hspace : ∃ c ∈ u, isSpace c = true
  · exact iff_of_true (token_append_of_space t hspace) (Or.inl hspace)
  · rw [token_append_of_no_space t hspace,
      token_eq_self hspace (Nat.le_of_lt hlen), or_iff_right hspace]
    cases t with
    | nil =>
        refine iff_of_true ?_ (fun c hc => by simp at hc)
        rw [List.takeWhile_nil, List.append_nil]
        exact List.take_of_length_le (Nat.le_of_lt hlen)
    | cons c t =>
        cases hc : isSpace c with
        | true =>
            refine iff_of_true ?_ (by simp [hc])
            rw [List.takeWhile_cons_of_neg (by simp [hc]), List.append_nil]
            exact List.take_of_length_le (Nat.le_of_lt hlen)
        | false =>
            refine iff_of_false ?_ (by simp [hc])
            intro heq
            have hlength := congrArg List.length heq
            rw [List.takeWhile_cons_of_pos (by simp [hc]), List.length_take,
              List.length_append, List.length_cons] at hlength
            omega

/-! ## What follows the scanned bytes -/

theorem skipSpaces_append {w : Bytes} (r : Bytes) (h : skipSpaces w ≠ []) :
    skipSpaces (w ++ r) = skipSpaces w ++ r :=
  (span_append (Or.inl h)).2

theorem skipSpaces_append_of_nil {w : Bytes} (r : Bytes)
    (h : skipSpaces w = []) : skipSpaces (w ++ r) = skipSpaces r := by
  unfold skipSpaces at h ⊢
  rw [List.dropWhile_append, h]
  rfl

/-- White space in front does not count. -/
theorem scanInt_congr {a b : Bytes} (h : skipSpaces a = skipSpaces b) :
    scanInt a = scanInt b := by
  unfold scanInt digitsAt
  rw [h]

theorem skipSpaces_skipSpaces_append (w r : Bytes) :
    skipSpaces (skipSpaces w ++ r) = skipSpaces (w ++ r) := by
  by_cases h : skipSpaces w = []
  · rw [h, List.nil_append, skipSpaces_append_of_nil r h]
  · have hidem : skipSpaces (skipSpaces w) ≠ [] := by
      rw [skipSpaces_idem]
      exact h
    rw [skipSpaces_append r h, skipSpaces_append r hidem, skipSpaces_idem]

/-- What is left of the string is its end. -/
theorem suffix_of_scanInt {str rest : Bytes} {val : BitVec 32}
    (h : scanInt str = some (val, rest)) : rest <:+ str := by
  have hdigits : digitsAt str <:+ skipSpaces str := by
    unfold digitsAt
    split
    · exact List.tail_suffix _
    · exact List.suffix_refl _
  unfold scanInt at h
  split at h
  · simp only [Option.some.injEq, Prod.mk.injEq] at h
    rw [← h.2]
    exact (List.dropWhile_suffix _).trans
      (hdigits.trans (List.dropWhile_suffix _))
  · cases h

theorem skipSpaces_ne_nil_of_digitsAt {w : Bytes} (h : digitsAt w ≠ []) :
    skipSpaces w ≠ [] := by
  intro hnil
  apply h
  rw [digitsAt, hnil]
  rfl

theorem digitsAt_append {w : Bytes} (r : Bytes) (h : digitsAt w ≠ []) :
    digitsAt (w ++ r) = digitsAt w ++ r := by
  have hskip := skipSpaces_ne_nil_of_digitsAt h
  unfold digitsAt
  rw [skipSpaces_append r hskip, List.head?_append_of_ne_nil _ hskip]
  by_cases hminus : (skipSpaces w).head? = some minus
  · rw [if_pos hminus, if_pos hminus]
    cases hs : skipSpaces w with
    | nil => exact absurd hs hskip
    | cons c cs => rfl
  · rw [if_neg hminus, if_neg hminus]

/-- There is something else where the digits have to start. -/
theorem scanInt_append_none {w : Bytes} (r : Bytes) (h : scanInt w = none)
    (hd : digitsAt w ≠ []) : scanInt (w ++ r) = none := by
  unfold scanInt at h ⊢
  rw [digitsAt_append r hd, List.head?_append_of_ne_nil _ hd]
  by_cases hdigit : (digitsAt w).head?.any isDigit = true
  · rw [if_pos hdigit] at h
    cases h
  · rw [if_neg hdigit]

/-- The number ends in `w`, or no digit follows. -/
theorem scanInt_append {w r rest : Bytes} {val : BitVec 32}
    (h : scanInt w = some (val, rest))
    (hr : rest ≠ [] ∨ ∀ c ∈ r.head?, isDigit c = false) :
    scanInt (w ++ r) = some (val, rest ++ r) := by
  unfold scanInt at h ⊢
  by_cases hdigit : (digitsAt w).head?.any isDigit = true
  · have hd : digitsAt w ≠ [] := by
      intro hnil
      rw [hnil] at hdigit
      cases hdigit
    have hskip := skipSpaces_ne_nil_of_digitsAt hd
    simp only [if_pos hdigit, Option.some.injEq, Prod.mk.injEq] at h
    obtain ⟨hval, hrest⟩ := h
    rw [← hrest] at hr
    obtain ⟨htake, hdrop⟩ := span_append hr
    rw [digitsAt_append r hd, List.head?_append_of_ne_nil _ hd, if_pos hdigit,
      skipSpaces_append r hskip, List.head?_append_of_ne_nil _ hskip, hdrop, hrest,
      ← hval]
    simp only [simpleStrtoull, htake]
  · rw [if_neg hdigit] at h
    cases h

end EmbeddedSystem.Verified.Sscanf
