import EmbeddedSystem.Labs.SimpleSysfs
import EmbeddedSystem.Verified.ScanDecimal
import EmbeddedSystem.Verified.Transition

/-!
# Writing back what was read

`proc_info_show` prints what `proc_info_write` scans, `id` in front of `name`,
and `simple_show_value` what `simple_store_value` scans.  A name or a value
that a write has stored holds no white space, so the scan takes all of it,
and the newline behind it keeps the scan out of what the stack holds.

Only an empty name is not printed in a way that it can be scanned: the scan
looks for the name behind both newlines, on the stack.
-/

set_option autoImplicit false

namespace EmbeddedSystem.Labs.SimpleProc

open EmbeddedSystem.Verified
open EmbeddedSystem.Verified.CString
open EmbeddedSystem.Verified.CBuffer
open EmbeddedSystem.Verified.Sscanf
open EmbeddedSystem.Verified.Transition

/-- `proc_info_show`: `"%d\n"` and `"%s\n"`; `none` if there is no NUL in
`name`. -/
def procInfoShow (g : Proc) : Option Bytes :=
  if 0 ∈ g.name.bytes then
    some (decimal g.id.toInt ++ newline :: (text g.name.bytes ++ [newline]))
  else none

/-- The arguments of a write, and what lies on the stack during it. -/
structure Write where
  ubuf : Bytes
  left : Nat
  stack : Bytes

/-- One write to the file. -/
def write (layout : Layout) (g : Proc) (w : Write) : Option Proc :=
  some (procInfoWrite layout g w.ubuf w.left w.stack).1

/-! ## Names without white space -/

theorem token_no_space (str : Bytes) :
    ¬ ∃ c ∈ token str, isSpace c = true := by
  rintro ⟨c, hc, hspace⟩
  have hall := List.all_takeWhile (p := fun c => !isSpace c) (l := str)
  have hc' := List.all_eq_true.mp hall c (List.mem_of_mem_take hc)
  simp [hspace] at hc'

/-- The name, if it ends within the array, holds no white space. -/
def Tidy (g : Proc) : Prop :=
  ∀ s, g.name.Holds s → ¬ ∃ c ∈ s, isSpace c = true

theorem holds_cleared (g : Proc) : (cleared g).name.Holds [] := by
  show (zeros nameSize).Holds []
  decide +kernel

theorem tidy_assign (layout : Layout) (g : Proc) (str : Bytes)
    (h : 0 ∉ str) :
    Tidy (assign layout (cleared g) (sscanf format str)) := by
  have hclear : ∀ g' : Proc, g'.name = (cleared g).name → Tidy g' := by
    intro g' hname s hs
    rw [hname] at hs
    rw [hs.unique (holds_cleared g)]
    rintro ⟨c, hc, -⟩
    exact absurd hc List.not_mem_nil
  cases hscan : scanInt str with
  | none =>
      rw [sscanf_none hscan]
      exact hclear _ rfl
  | some x =>
      obtain ⟨val, rest⟩ := x
      by_cases hnil : skipSpaces rest = []
      · rw [sscanf_int hscan hnil]
        exact hclear _ rfl
      · rw [sscanf_name hscan hnil]
        intro s hs
        have hfree : 0 ∉ skipSpaces rest := fun hmem =>
          h ((suffix_of_scanInt hscan).subset
            ((List.dropWhile_suffix _).subset hmem))
        have hstored := (holds_store_iff _ (nulFree_token hfree)).mp hs
        rw [hstored.2]
        exact token_no_space _

theorem tidy_write {layout : Layout} {g g' : Proc} {w : Write} (h : Tidy g)
    (hst : write layout g w = some g') : Tidy g' := by
  rw [write, Option.some.injEq] at hst
  subst hst
  by_cases href : bufSize < w.ubuf.length ∨ notCopied w.ubuf w.left ≠ 0
  · rw [procInfoWrite_refused w.stack href]
    exact h
  · obtain ⟨hlen, hcopy⟩ := not_or.mp href
    rw [procInfoWrite_ok layout g w.stack (Nat.le_of_not_lt hlen)
      (Decidable.not_not.mp hcopy)]
    exact tidy_assign layout g _ (nulFree_text _)

theorem tidy_loaded : Tidy loaded := by
  intro s hs
  have hname : loaded.name.Holds (ascii "Embedded_System_Software") := by
    decide +kernel
  rw [hs.unique hname]
  decide +kernel

/-! ## The scan of what was printed -/

theorem skipSpaces_newline (str : Bytes) :
    skipSpaces (newline :: str) = skipSpaces str :=
  List.dropWhile_cons_of_pos (by decide)

/-- Where the scan looks for the name. -/
theorem scanInt_shown (id : BitVec 32) (s t : Bytes) :
    scanInt (decimal id.toInt ++ newline :: (s ++ newline :: t)) =
      some (id, newline :: (s ++ newline :: t)) := by
  apply scanInt_decimal
  intro c hc
  rw [List.head?_cons, Option.mem_some_iff] at hc
  rw [← hc]
  decide

/-- A name without white space, as a whole. -/
theorem sscanf_shown {s : Bytes} (id : BitVec 32) (t : Bytes) (hne : s ≠ [])
    (hspace : ¬ ∃ c ∈ s, isSpace c = true) (hlen : s.length < nameSize) :
    sscanf format (decimal id.toInt ++ newline :: (s ++ newline :: t)) =
      [.int id, .string s] := by
  have hfits : nameSize ≤ shrtMax := by decide
  have hskip : skipSpaces (newline :: (s ++ newline :: t)) =
      s ++ newline :: t := by
    rw [skipSpaces_newline]
    obtain ⟨c, cs, rfl⟩ := List.exists_cons_of_ne_nil hne
    apply List.dropWhile_cons_of_neg
    exact fun hc => hspace ⟨c, List.mem_cons_self, hc⟩
  have htoken : token (s ++ newline :: t) = s := by
    have heq := (token_append_eq_iff (u := s) (newline :: t)
      (Nat.lt_of_lt_of_le hlen hfits)).mpr (Or.inr fun c hc => by
        rw [List.head?_cons, Option.mem_some_iff] at hc
        rw [← hc]
        decide)
    rw [heq, token_eq_self hspace (by omega)]
  have hname : skipSpaces (newline :: (s ++ newline :: t)) ≠ [] := by
    rw [hskip]
    exact fun hnil => hne (List.append_eq_nil_iff.mp hnil).1
  rw [sscanf_name (scanInt_shown id s t) hname, hskip, htoken]

theorem length_shown {id : BitVec 32} {s : Bytes}
    (hlen : s.length < nameSize) :
    (decimal id.toInt ++ newline :: (s ++ [newline])).length ≤ bufSize := by
  have hlo := BitVec.le_toInt id
  have hhi := BitVec.toInt_lt (x := id)
  have hdigits := length_decimal_le (n := id.toInt) (by omega) (by omega)
  rw [List.length_append, List.length_cons, List.length_append,
    List.length_singleton]
  unfold nameSize at hlen
  unfold bufSize
  omega

/-- The end of the scan if there is no name in front of the stack. -/
theorem unchanged_nil_iff (layout : Layout) (g : Proc) (id : BitVec 32)
    {t : Bytes} (ht : 0 ∉ t) :
    ((assign layout (cleared g) (sscanf format
        (decimal id.toInt ++ newline :: ([] ++ newline :: t)))).id = id ∧
      (assign layout (cleared g) (sscanf format
        (decimal id.toInt ++ newline :: ([] ++ newline :: t)))).name.Holds
          []) ↔ skipSpaces t = [] := by
  have hscan := scanInt_shown id [] t
  have hskip : skipSpaces (newline :: ([] ++ newline :: t)) =
      skipSpaces t := by
    rw [skipSpaces_newline, List.nil_append, skipSpaces_newline]
  by_cases hnil : skipSpaces t = []
  · rw [sscanf_int hscan (hskip.trans hnil)]
    exact iff_of_true ⟨rfl, holds_cleared g⟩ hnil
  · rw [sscanf_name hscan (by rw [hskip]; exact hnil), hskip]
    refine iff_of_false ?_ hnil
    rintro ⟨-, hholds⟩
    have hfree : 0 ∉ skipSpaces t := fun hmem =>
      ht ((List.dropWhile_suffix _).subset hmem)
    have hstored := (holds_store_iff _ (nulFree_token hfree)).mp hholds
    obtain ⟨c, cs, hcs⟩ := List.exists_cons_of_ne_nil hnil
    have hspace : isSpace c = false := by
      have hhead := List.head?_dropWhile_not isSpace t
      have hdrop : t.dropWhile isSpace = c :: cs := hcs
      rw [hdrop] at hhead
      simpa using hhead
    rw [hcs, token, List.takeWhile_cons_of_pos (by simp [hspace])] at hstored
    cases hstored.2

/-! ## The result -/

/-- After any writes that leave a string in `name`, what is read from the file
can be written back as it is: the write is accepted, and `id` and `name` are
what they were, whatever lies on the stack, unless `name` is empty and the
stack goes on with something that is not white space. -/
theorem write_back_iff {layout : Layout} {ws : List Write} {g : Proc}
    {s : Bytes} (hrun : run (write layout) loaded ws = some g)
    (hname : g.name.Holds s) (stack : Bytes) :
    ∃ out, procInfoShow g = some out ∧
      (procInfoWrite layout g out 0 stack).2 = out.length ∧
      (((procInfoWrite layout g out 0 stack).1.id = g.id ∧
          (procInfoWrite layout g out 0 stack).1.name.Holds s) ↔
        s ≠ [] ∨ skipSpaces (text stack) = []) := by
  have htidy : Tidy g :=
    run_induct (fun g w g' h hst => tidy_write h hst) tidy_loaded hrun
  have hspace := htidy s hname
  have hfree := hname.nulFree
  have hlen := hname.length_lt
  let out := decimal g.id.toInt ++ newline :: (s ++ [newline])
  have hshow : procInfoShow g = some out := by
    rw [procInfoShow, if_pos hname.1, hname.2]
  have hwrite : procInfoWrite layout g out 0 stack = _ :=
    procInfoWrite_ok layout g stack (length_shown hlen) (Nat.zero_min _)
  have hout : 0 ∉ out := by
    have hnewline : (0 : UInt8) ≠ newline := by decide
    intro hmem
    rcases List.mem_append.mp hmem with h | h
    · exact nulFree_decimal _ h
    · rcases List.mem_cons.mp h with h | h
      · exact hnewline h
      · rcases List.mem_append.mp h with h | h
        · exact hfree h
        · exact hnewline (List.mem_singleton.mp h)
  have hbytes : text (out ++ stack) =
      decimal g.id.toInt ++ newline :: (s ++ newline :: text stack) := by
    rw [text_append_of_not_mem stack hout]
    simp [out]
  refine ⟨out, hshow, ?_⟩
  rw [hwrite, hbytes]
  refine ⟨rfl, ?_⟩
  by_cases hne : s = []
  · subst hne
    refine (unchanged_nil_iff layout g g.id (nulFree_text stack)).trans ?_
    simp
  · rw [sscanf_shown g.id _ hne hspace hlen]
    refine iff_of_true ⟨idAfter_of_fits layout g.id hlen, ?_⟩ (Or.inl hne)
    exact (holds_store_iff _ hfree).mpr ⟨hlen, rfl⟩

/-- A name is written and written back. -/
theorem write_back_iff_kim :
    ∃ g, run (write .nameFirst) loaded [⟨ascii "42 Kim\n", 0, [0]⟩] =
        some g ∧
      ∃ out, procInfoShow g = some out ∧
        (procInfoWrite .nameFirst g out 0 (ascii "berly")).1.name.Holds
          (ascii "Kim") := by
  have hname : (procInfoWrite .nameFirst loaded (ascii "42 Kim\n") 0
      [0]).1.name.Holds (ascii "Kim") := by
    decide +kernel
  have hrun : run (write .nameFirst) loaded [⟨ascii "42 Kim\n", 0, [0]⟩] =
      some (procInfoWrite .nameFirst loaded (ascii "42 Kim\n") 0 [0]).1 := rfl
  obtain ⟨out, hshow, -, hiff⟩ := write_back_iff hrun hname (ascii "berly")
  exact ⟨_, hrun, out, hshow, (hiff.mpr (Or.inl (by decide))).2⟩

end EmbeddedSystem.Labs.SimpleProc

namespace EmbeddedSystem.Labs.SimpleSysfs

open EmbeddedSystem.Verified
open EmbeddedSystem.Verified.CString
open EmbeddedSystem.Verified.CBuffer
open EmbeddedSystem.Verified.Sscanf
open EmbeddedSystem.Verified.Transition

/-- One write to the attribute. -/
def store (attr : Attr) (buf : CStr) : Option Attr :=
  some (simpleStoreValue attr buf).1

/-- The value, if it ends within the array, holds no white space. -/
def Tidy (attr : Attr) : Prop :=
  ∀ s, attr.value.Holds s → ¬ ∃ c ∈ s, isSpace c = true

theorem tidy_store {attr attr' : Attr} {buf : CStr} (h : Tidy attr)
    (hst : store attr buf = some attr') : Tidy attr' := by
  rw [store, Option.some.injEq] at hst
  subst hst
  by_cases hnil : buf.bytes = []
  · have hsame : (simpleStoreValue attr buf).1.value = attr.value := by
      rw [simpleStoreValue, hnil]
      rfl
    intro s hs
    rw [hsame] at hs
    exact h s hs
  · rw [simpleStoreValue_string hnil]
    intro s hs
    have hfree : 0 ∉ skipSpaces buf.bytes := fun h0 =>
      buf.nulFree ((List.dropWhile_suffix _).subset h0)
    have hstored := (holds_store_iff _ (nulFree_token hfree)).mp hs
    rw [hstored.2]
    exact SimpleProc.token_no_space _

theorem tidy_init : Tidy simpleSysfsInit := by
  intro s hs
  have hvalue : simpleSysfsInit.value.Holds [] := by
    decide +kernel
  rw [hs.unique hvalue]
  rintro ⟨c, hc, -⟩
  exact absurd hc List.not_mem_nil

/-- After any writes that leave a string in the attribute, what is read from
it can be written back as it is: the value is what it was, and so is what the
next read returns. -/
theorem store_back {bufs : List CStr} {attr : Attr} {s : Bytes}
    (hrun : run store simpleSysfsInit bufs = some attr)
    (hvalue : attr.value.Holds s) :
    ∃ out : CStr, simpleShowValue attr = some out.bytes ∧
      (simpleStoreValue attr out).1.value.Holds s ∧
      (simpleStoreValue attr out).1.past = [] ∧
      (simpleStoreValue attr out).2 = out.bytes.length ∧
      simpleShowValue (simpleStoreValue attr out).1 =
        simpleShowValue attr := by
  have htidy : Tidy attr :=
    run_induct (fun a b a' h hst => tidy_store h hst) tidy_init hrun
  have hspace := htidy s hvalue
  have hfree := hvalue.nulFree
  have hlen := hvalue.length_lt
  have hout : 0 ∉ s ++ [newline] := by
    intro hmem
    rcases List.mem_append.mp hmem with h | h
    · exact hfree h
    · exact absurd (List.mem_singleton.mp h) (by decide)
  let out : CStr := ⟨s ++ [newline], hout⟩
  have hne : out.bytes ≠ [] := by simp [out]
  have hpage : (s ++ [newline]).length ≤ pageSize - 1 := by
    rw [List.length_append, List.length_singleton]
    unfold valueSize at hlen
    unfold pageSize
    omega
  have hshow : simpleShowValue attr = some out.bytes := by
    rw [simpleShowValue, if_pos hvalue.1, hvalue.2,
      List.take_of_length_le hpage]
  have htoken : token (skipSpaces out.bytes) = s := by
    by_cases hnil : s = []
    · subst hnil
      rfl
    · obtain ⟨c, cs, hcs⟩ := List.exists_cons_of_ne_nil hnil
      have hc : ¬ isSpace c = true := fun hc =>
        hspace ⟨c, by rw [hcs]; exact List.mem_cons_self, hc⟩
      have hskip : skipSpaces out.bytes = s ++ [newline] := by
        show (s ++ [newline]).dropWhile isSpace = s ++ [newline]
        rw [hcs, List.cons_append, List.dropWhile_cons_of_neg hc]
      have hfits : valueSize ≤ shrtMax := by decide
      have hnewline : ∀ c ∈ [newline].head?, isSpace c = true := by
        intro c hc
        cases hc
        rfl
      rw [hskip]
      have heq := (token_append_eq_iff [newline]
        (Nat.lt_of_lt_of_le hlen hfits)).mpr (Or.inr hnewline)
      rw [heq, token_eq_self hspace (by omega)]
  have hshort : Short valueSize (skipSpaces out.bytes) := by
    rw [← length_token_lt_iff (by decide), htoken]
    exact hlen
  refine ⟨out, hshow, ?_, (simpleStoreValue_fits_iff attr out).mpr hshort, ?_,
    ?_⟩
  · rw [simpleStoreValue_string hne, htoken]
    exact (holds_store_iff _ hfree).mpr ⟨hlen, rfl⟩
  · show min out.bytes.length pageSize = out.bytes.length
    apply Nat.min_eq_left
    exact Nat.le_trans hpage (Nat.sub_le _ _)
  · rw [simpleShowValue_store attr hne hshort, htoken, hshow]

/-- A word is written, and then what was read. -/
theorem store_back_on :
    ∃ attr, run store simpleSysfsInit [.ofBuffer (ascii "on\n")] =
        some attr ∧
      ∃ out : CStr, simpleShowValue attr = some out.bytes ∧
        simpleShowValue (simpleStoreValue attr out).1 =
          simpleShowValue attr := by
  have hvalue : (simpleStoreValue simpleSysfsInit
      (.ofBuffer (ascii "on\n"))).1.value.Holds (ascii "on") := by
    decide +kernel
  have hrun : run store simpleSysfsInit [.ofBuffer (ascii "on\n")] =
      some (simpleStoreValue simpleSysfsInit
        (.ofBuffer (ascii "on\n"))).1 := rfl
  obtain ⟨out, hshow, -, -, -, hsame⟩ := store_back hrun hvalue
  exact ⟨_, hrun, out, hshow, hsame⟩

end EmbeddedSystem.Labs.SimpleSysfs
