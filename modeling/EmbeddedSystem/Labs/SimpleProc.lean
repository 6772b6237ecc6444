import EmbeddedSystem.Verified.CBuffer
import EmbeddedSystem.Verified.Sscanf

/-!
# The proc file of `simple_proc.c`

`proc_info_write` copies the user's bytes to a buffer on its stack and scans
them with `"%d %s"`.  Nothing puts a NUL behind them, so the scan goes on into
what the stack holds there, unless it has come to its end before
(`same_result_iff`).  A name that is too long goes on behind `name`, where
some compilers put `id`.

It clears `name` before the scan and does not look at how far the scan has
come.  So a write is only atomic if it holds a number and a name that fits
(`atomic_iff`).
-/

set_option autoImplicit false

namespace EmbeddedSystem.Labs.SimpleProc

open EmbeddedSystem.Verified
open EmbeddedSystem.Verified.CString
open EmbeddedSystem.Verified.CBuffer
open EmbeddedSystem.Verified.Sscanf

/-- `BUF_SIZE` -/
def bufSize : Nat := 128

/-- `sizeof(name)` -/
def nameSize : Nat := 100

/-- `"%d %s"` -/
def format : List Directive := [.int, .white, .string]

/-- The compiler puts one of the two variables right behind the other. -/
inductive Layout where
  | idFirst
  | nameFirst
deriving DecidableEq, Repr

/-- What `id` becomes when `past` is written behind `name`. -/
def Layout.idAfter : Layout → BitVec 32 → Bytes → BitVec 32
  | .idFirst, id, _ => id
  | .nameFirst, id, past => toInt ((ofInt id).store past)

/-- The module's globals.  `past` is what the last write has put behind
`name`. -/
structure Proc where
  id : BitVec 32
  name : CBuffer nameSize
  past : Bytes
deriving DecidableEq, Repr

/-- The module right after it was loaded. -/
def loaded : Proc where
  id := 202077777
  name := (zeros nameSize).store (ascii "Embedded_System_Software")
  past := []

/-- `sscanf(..., &id, name)` -/
def assign (layout : Layout) (g : Proc) : List Stored → Proc
  | [.int val] => { g with id := val }
  | [.int val, .string token] =>
      { id := layout.idAfter val (CBuffer.past nameSize (token ++ [0]))
        name := g.name.store (token ++ [0])
        past := CBuffer.past nameSize (token ++ [0]) }
  | _ => g

/-- `memset(name, 0, sizeof(name))` -/
def cleared (g : Proc) : Proc := { g with name := zeros nameSize, past := [] }

/-- The new globals and the value returned.  `left` says how many bytes at the
end of `ubuf` cannot be copied, and `stack` is what lies behind the copied
bytes, up to some NUL. -/
def procInfoWrite (layout : Layout) (g : Proc) (ubuf : Bytes) (left : Nat)
    (stack : Bytes) : Proc × Int :=
  if ubuf.length > bufSize then (g, -1)
  else if notCopied ubuf left ≠ 0 then (g, -1)
  else
    let buf := received ubuf left ++ stack
    (assign layout (cleared g) (sscanf format (text buf)), ubuf.length)

theorem procInfoWrite_ok (layout : Layout) (g : Proc) {ubuf : Bytes}
    {left : Nat} (stack : Bytes) (hlen : ubuf.length ≤ bufSize)
    (hcopy : notCopied ubuf left = 0) :
    procInfoWrite layout g ubuf left stack =
      (assign layout (cleared g) (sscanf format (text (ubuf ++ stack))),
        (ubuf.length : Int)) := by
  unfold procInfoWrite
  rw [if_neg (by omega), if_neg (fun hne => hne hcopy),
    received_of_notCopied hcopy]

/-! ## The scan -/

/-- Where the name has to start, if there is a number in front of it. -/
def nameAt (str : Bytes) : Option Bytes :=
  (scanInt str).map fun x => skipSpaces x.2

theorem sscanf_none {str : Bytes} (h : scanInt str = none) :
    sscanf format str = [] := by
  simp only [format, sscanf, h]

theorem sscanf_int {str rest : Bytes} {val : BitVec 32}
    (h : scanInt str = some (val, rest)) (hname : skipSpaces rest = []) :
    sscanf format str = [.int val] := by
  simp only [format, sscanf, h, hname, scanString, if_true]

theorem sscanf_name {str rest : Bytes} {val : BitVec 32}
    (h : scanInt str = some (val, rest)) (hname : skipSpaces rest ≠ []) :
    sscanf format str = [.int val, .string (token (skipSpaces rest))] := by
  simp only [format, sscanf, h, scanString, if_neg hname, skipSpaces_idem]

/-! ## What the stack has to do with it -/

/-- The characters of a name that get into the two variables. -/
def Layout.room : Layout → Nat
  | .idFirst => nameSize
  | .nameFirst => nameSize + 4

/-- The scan comes to its end in the bytes that were written, or at least
what there is room for does. -/
def Stops (layout : Layout) (w : Bytes) : Prop :=
  0 ∈ w ∨ (scanInt w = none ∧ digitsAt w ≠ []) ∨
    ∃ u ∈ nameAt w, (∃ c ∈ u, isSpace c = true) ∨ layout.room ≤ u.length

instance (layout : Layout) (w : Bytes) : Decidable (Stops layout w) :=
  inferInstanceAs (Decidable (_ ∨ _))

/-- What `name` holds after a scan whose name starts here. -/
def named (u : Bytes) : CBuffer nameSize :=
  (zeros nameSize).store (token u ++ [0])

/-- What such a scan puts behind `name`. -/
def spilt (u : Bytes) : Bytes := CBuffer.past nameSize (token u ++ [0])

/-- The characters that are stored of a name without white space. -/
theorem take_token_append {u : Bytes} {k : Nat} (t : Bytes)
    (hspace : ¬ ∃ c ∈ u, isSpace c = true) (hk : k ≤ shrtMax)
    (hlen : k ≤ u.length) :
    k ≤ (token (u ++ t)).length ∧
      (token (u ++ t) ++ [0]).take k = u.take k := by
  have htoken : (token (u ++ t)).take k = u.take k := by
    rw [token_append_of_no_space t hspace, List.take_take,
      Nat.min_eq_left hk, List.take_append_of_le_length hlen]
  have hle : k ≤ (token (u ++ t)).length := by
    have htake := congrArg List.length htoken
    rw [List.length_take, List.length_take, Nat.min_eq_left hlen] at htake
    omega
  rw [List.take_append_of_le_length hle]
  exact ⟨hle, htoken⟩

/-- A name without white space that fills the array. -/
theorem bytes_named {u : Bytes} (t : Bytes)
    (hspace : ¬ ∃ c ∈ u, isSpace c = true) (hlen : nameSize ≤ u.length) :
    (named (u ++ t)).bytes = u.take nameSize := by
  obtain ⟨hle, htake⟩ := take_token_append t hspace (by decide) hlen
  rw [named, store_of_ge _ (by rw [List.length_append]; omega), htake]

/-- And one that fills an `int` behind it, too. -/
theorem bytes_spilt {u : Bytes} (t : Bytes) (id : BitVec 32)
    (hspace : ¬ ∃ c ∈ u, isSpace c = true) (hlen : nameSize + 4 ≤ u.length) :
    ((ofInt id).store (spilt (u ++ t))).bytes =
      (u.take (nameSize + 4)).drop nameSize := by
  obtain ⟨hle, htake⟩ := take_token_append t hspace (by decide) hlen
  have hfour : 4 ≤ (spilt (u ++ t)).length := by
    rw [spilt, CBuffer.past, List.length_drop, List.length_append]
    omega
  rw [store_of_ge _ hfour, spilt, CBuffer.past, List.take_drop, htake]

/-- What the scan leaves in the two variables. -/
def scanned (layout : Layout) (val : BitVec 32) (u : Bytes) :
    BitVec 32 × CBuffer nameSize :=
  (layout.idAfter val (spilt u), named u)

theorem scanned_append {layout : Layout} {u : Bytes} (val : BitVec 32)
    (t t' : Bytes)
    (h : (∃ c ∈ u, isSpace c = true) ∨ layout.room ≤ u.length) :
    scanned layout val (u ++ t) = scanned layout val (u ++ t') := by
  by_cases hspace : ∃ c ∈ u, isSpace c = true
  · unfold scanned named spilt
    rw [token_append_of_space t hspace, token_append_of_space t' hspace]
  · have hroom : layout.room ≤ u.length := h.resolve_left hspace
    have hlen : nameSize ≤ u.length := by
      cases layout with
      | idFirst => exact hroom
      | nameFirst => exact Nat.le_trans (Nat.le_add_right _ _) hroom
    have hname : named (u ++ t) = named (u ++ t') := by
      apply CBuffer.ext
      rw [bytes_named t hspace hlen, bytes_named t' hspace hlen]
    have hid : layout.idAfter val (spilt (u ++ t)) =
        layout.idAfter val (spilt (u ++ t')) := by
      cases layout with
      | idFirst => rfl
      | nameFirst =>
          apply congrArg toInt
          apply CBuffer.ext
          rw [bytes_spilt t val hspace hroom, bytes_spilt t' val hspace hroom]
    unfold scanned
    rw [hid, hname]

theorem mem_nameAt {w u : Bytes} (h : u ∈ nameAt w) :
    ∃ val rest, scanInt w = some (val, rest) ∧ skipSpaces rest = u := by
  unfold nameAt at h
  cases hscan : scanInt w with
  | none => simp [hscan] at h
  | some x => exact ⟨x.1, x.2, rfl, by simpa [hscan] using h⟩

/-- There is a name in `w`: so it is the name for whatever follows. -/
theorem sscanf_append {w rest : Bytes} {val : BitVec 32} (t : Bytes)
    (h : scanInt w = some (val, rest)) (hname : skipSpaces rest ≠ []) :
    sscanf format (w ++ t) =
      [.int val, .string (token (skipSpaces rest ++ t))] := by
  have hrest : rest ≠ [] := by
    rintro rfl
    exact hname rfl
  have happ : skipSpaces (rest ++ t) = skipSpaces rest ++ t :=
    skipSpaces_append t hname
  rw [sscanf_name (scanInt_append h (Or.inl hrest)), happ]
  rw [happ]
  exact fun hnil => hname (List.append_eq_nil_iff.mp hnil).1

/-- The two variables. -/
def Proc.values (g : Proc) : BitVec 32 × CBuffer nameSize := (g.id, g.name)

theorem values_of_stops {layout : Layout} {w : Bytes} (h : Stops layout w)
    (g : Proc) (r r' : Bytes) :
    (assign layout (cleared g) (sscanf format (text (w ++ r)))).values =
      (assign layout (cleared g)
        (sscanf format (text (w ++ r')))).values := by
  by_cases h0 : 0 ∈ w
  · rw [text_append_of_mem r h0, text_append_of_mem r' h0]
  · rw [text_append_of_not_mem r h0, text_append_of_not_mem r' h0]
    rcases h.resolve_left h0 with ⟨hnone, hd⟩ | ⟨u, hu, hends⟩
    · rw [sscanf_none (scanInt_append_none _ hnone hd),
        sscanf_none (scanInt_append_none _ hnone hd)]
    · obtain ⟨val, rest, hscan, rfl⟩ := mem_nameAt hu
      have hne : skipSpaces rest ≠ [] := by
        intro hnil
        rw [hnil] at hends
        rcases hends with ⟨c, hc, -⟩ | hlen
        · exact absurd hc List.not_mem_nil
        · revert hlen
          cases layout with
          | idFirst => decide
          | nameFirst => decide
      rw [sscanf_append _ hscan hne, sscanf_append _ hscan hne]
      exact scanned_append val _ _ hends

/-! ## Different stacks, different names -/

/-- `"5 "` where the digits would have to start. -/
theorem scanInt_five {w : Bytes} (h : digitsAt w = []) :
    ∃ val, ∀ c, scanInt (w ++ [53, 32, c]) = some (val, [32, c]) := by
  have hskip : ∀ c, scanInt (w ++ [53, 32, c]) =
      scanInt (skipSpaces w ++ [53, 32, c]) :=
    fun c => scanInt_congr (skipSpaces_skipSpaces_append w _).symm
  cases hw : skipSpaces w with
  | nil =>
      refine ⟨5, fun c => ?_⟩
      rw [hskip, hw]
      rfl
  | cons b bs =>
      -- There is only a minus.
      have hminus : b = minus ∧ bs = [] := by
        unfold digitsAt at h
        rw [hw] at h
        by_cases hb : b = minus
        · exact ⟨hb, by simpa [hb] using h⟩
        · simp [hb] at h
      refine ⟨(-5 : BitVec 64).setWidth 32, fun c => ?_⟩
      rw [hskip, hw, hminus.1, hminus.2]
      rfl

/-- Some characters of a name. -/
def letters : Bytes := ascii "xy"

theorem mem_letters {c : UInt8} (h : c ∈ letters) : c = 120 ∨ c = 121 := by
  have hletters : letters = [120, 121] := by decide
  rw [hletters, List.mem_cons, List.mem_singleton] at h
  exact h

theorem letter_cases {c : UInt8} (h : c ∈ letters) :
    isSpace c = false ∧ c ≠ 0 := by
  rcases mem_letters h with rfl | rfl
  · decide
  · decide

/-- The scan gets to the end of `w`, and then takes the stack for the rest of
the number or of the name. -/
theorem sscanf_goes_on {layout : Layout} {w : Bytes}
    (h : ¬ Stops layout w) :
    ∃ (s : Bytes) (val : BitVec 32) (front : Bytes), 0 ∉ s ∧
      front.length < layout.room ∧ ∀ c ∈ letters,
        sscanf format (w ++ s ++ [c]) =
          [.int val, .string (front ++ [c])] := by
  have hroom : 0 < layout.room ∧ layout.room ≤ shrtMax := by
    cases layout with
    | idFirst => decide
    | nameFirst => decide
  have htoken : ∀ (u : Bytes) (c : UInt8), c ∈ letters →
      (¬ ∃ b ∈ u, isSpace b = true) → u.length < layout.room →
      token (u ++ [c]) = u ++ [c] := by
    intro u c hc hu hlen
    apply token_eq_self
    · rintro ⟨b, hb, hspace⟩
      rcases List.mem_append.mp hb with hb | hb
      · exact hu ⟨b, hb, hspace⟩
      · rw [List.mem_singleton.mp hb, (letter_cases hc).1] at hspace
        cases hspace
    · rw [List.length_append, List.length_singleton]
      omega
  have hblank : ∀ c ∈ letters, skipSpaces [32, c] = [] ++ [c] := by
    intro c hc
    rcases mem_letters hc with rfl | rfl
    · decide
    · decide
  have hnil : ¬ ∃ b ∈ ([] : Bytes), isSpace b = true :=
    fun ⟨b, hb, _⟩ => absurd hb List.not_mem_nil
  cases hscan : scanInt w with
  | none =>
      have hd : digitsAt w = [] := by
        by_cases hd : digitsAt w = []
        · exact hd
        · exact absurd (Or.inr (Or.inl ⟨hscan, hd⟩)) h
      obtain ⟨val, hval⟩ := scanInt_five hd
      refine ⟨[53, 32], val, [], by decide, hroom.1, fun c hc => ?_⟩
      rw [List.append_assoc]
      show sscanf format (w ++ [53, 32, c]) = _
      rw [sscanf_name (hval c) (by rw [hblank c hc]; simp), hblank c hc,
        htoken [] c hc hnil hroom.1]
  | some x =>
      obtain ⟨val, rest⟩ := x
      have hname : skipSpaces rest ∈ nameAt w := by simp [nameAt, hscan]
      have hspace : ¬ ∃ b ∈ skipSpaces rest, isSpace b = true :=
        fun hex => h (Or.inr (Or.inr ⟨_, hname, Or.inl hex⟩))
      have hlen : (skipSpaces rest).length < layout.room :=
        Nat.lt_of_not_le fun hle =>
          h (Or.inr (Or.inr ⟨_, hname, Or.inr hle⟩))
      by_cases hu : skipSpaces rest = []
      · refine ⟨[32], val, [], by decide, hroom.1, fun c hc => ?_⟩
        rw [List.append_assoc]
        have hint := scanInt_append (r := [32, c]) hscan
          (Or.inr (by simp [isDigit]))
        have happ : skipSpaces (rest ++ [32, c]) = [] ++ [c] := by
          rw [skipSpaces_append_of_nil _ hu, hblank c hc]
        show sscanf format (w ++ [32, c]) = _
        rw [sscanf_name hint (by rw [happ]; simp), happ,
          htoken [] c hc hnil hroom.1]
      · refine ⟨[], val, skipSpaces rest, List.not_mem_nil, hlen,
          fun c hc => ?_⟩
        rw [List.append_nil, sscanf_append [c] hscan hu,
          htoken _ c hc hspace hlen]

/-- The bytes in which the two variables show what was stored. -/
theorem getElem?_scanned {layout : Layout} (val : BitVec 32) {front : Bytes}
    (hlen : front.length < layout.room) :
    (∀ c : UInt8, ((zeros nameSize).store
        (front ++ [c] ++ [0])).bytes[front.length]? = some c) ∨
      (layout = .nameFirst ∧
        ∀ c : UInt8, ((ofInt val).store (CBuffer.past nameSize
          (front ++ [c] ++ [0]))).bytes[front.length - nameSize]? =
            some c) := by
  have hat : ∀ c : UInt8, (front ++ [c] ++ [0])[front.length]? = some c := by
    intro c
    rw [List.append_assoc, List.getElem?_append_right (Nat.le_refl _),
      Nat.sub_self]
    rfl
  by_cases hname : front.length < nameSize
  · exact Or.inl fun c => by rw [getElem?_store _ hname (by simp), hat c]
  · have hpast : nameSize ≤ front.length := Nat.le_of_not_lt hname
    cases layout with
    | idFirst => exact absurd hlen hname
    | nameFirst =>
        have hlen : front.length < nameSize + 4 := hlen
        refine Or.inr ⟨rfl, fun c => ?_⟩
        have hin : front.length - nameSize <
            (CBuffer.past nameSize (front ++ [c] ++ [0])).length := by
          rw [CBuffer.past, List.length_drop, List.length_append,
            List.length_append, List.length_singleton,
            List.length_singleton]
          omega
        rw [getElem?_store _ (by omega) hin, CBuffer.past,
          List.getElem?_drop, Nat.add_sub_cancel' hpast, hat c]

theorem stops_of_values {layout : Layout} {w : Bytes} (g : Proc)
    (h : ∀ r r' : Bytes,
      (assign layout (cleared g) (sscanf format (text (w ++ r)))).values =
        (assign layout (cleared g)
          (sscanf format (text (w ++ r')))).values) :
    Stops layout w := by
  apply Classical.byContradiction
  intro hnot
  obtain ⟨s, val, front, hs, hlen, hscan⟩ := sscanf_goes_on hnot
  have hw : 0 ∉ w := fun h0 => hnot (Or.inl h0)
  have hvalues : ∀ c ∈ letters,
      (assign layout (cleared g)
          (sscanf format (text (w ++ (s ++ [c]))))).values =
        (layout.idAfter val (CBuffer.past nameSize (front ++ [c] ++ [0])),
          (zeros nameSize).store (front ++ [c] ++ [0])) := by
    intro c hc
    have hfree : 0 ∉ w ++ s ++ [c] := by
      simp only [List.mem_append, List.mem_singleton]
      rintro ((h0 | h0) | h0)
      · exact hw h0
      · exact hs h0
      · exact (letter_cases hc).2 h0.symm
    rw [← List.append_assoc, text_eq_self hfree, hscan c hc]
    rfl
  have heq := h (s ++ [120]) (s ++ [121])
  rw [hvalues 120 (by decide), hvalues 121 (by decide), Prod.mk.injEq] at heq
  rcases getElem?_scanned val hlen with hbyte | ⟨hlayout, hbyte⟩
  · have hx := hbyte 120
    rw [heq.2, hbyte 121] at hx
    exact absurd hx (by decide)
  · have hid := heq.1
    rw [hlayout] at hid
    have hx := hbyte 120
    rw [toInt_inj.mp hid, hbyte 121] at hx
    exact absurd hx (by decide)

/-- What a write that is accepted leaves depends on the stack, unless the
scan ends in the bytes that were written: because there is a NUL in them,
because something else stands where the digits have to start, because there
is white space behind the name, or because the name fills `name`, and `id`
as well if that lies behind it. -/
theorem same_result_iff (layout : Layout) (g : Proc) {w : Bytes} {left : Nat}
    (hlen : w.length ≤ bufSize) (hcopy : notCopied w left = 0) :
    (∀ stack stack' : Bytes,
      (procInfoWrite layout g w left stack).1.id =
          (procInfoWrite layout g w left stack').1.id ∧
        (procInfoWrite layout g w left stack).1.name =
          (procInfoWrite layout g w left stack').1.name) ↔
      Stops layout w := by
  have hvalues : ∀ stack, (procInfoWrite layout g w left stack).1 =
      assign layout (cleared g) (sscanf format (text (w ++ stack))) :=
    fun stack =>
      congrArg Prod.fst (procInfoWrite_ok layout g stack hlen hcopy)
  constructor
  · intro h
    apply stops_of_values g
    intro r r'
    rw [← hvalues, ← hvalues]
    exact Prod.ext (h r r').1 (h r r').2
  · intro h stack stack'
    rw [hvalues, hvalues]
    have heq := values_of_stops h g stack stack'
    exact ⟨congrArg Prod.fst heq, congrArg Prod.snd heq⟩

/-- A shell writes a newline behind the name. -/
theorem same_result_iff_newline :
    (procInfoWrite .nameFirst loaded (ascii "42 Kim\n") 0 [0]).1.name =
      (procInfoWrite .nameFirst loaded (ascii "42 Kim\n") 0
        (ascii "berly")).1.name :=
  ((same_result_iff .nameFirst loaded (by decide) (by decide)).mpr
    (by decide) [0] (ascii "berly")).2

/-- Without one, the name goes on with what was on the stack. -/
theorem same_result_iff_fails :
    (procInfoWrite .nameFirst loaded (ascii "42 Kim") 0 [0]).1.name.Holds
        (ascii "Kim") ∧
      (procInfoWrite .nameFirst loaded (ascii "42 Kim") 0
        (ascii "berly")).1.name.Holds (ascii "Kimberly") ∧
      (procInfoWrite .nameFirst loaded (ascii "42 Kim") 0 [0]).1.name ≠
        (procInfoWrite .nameFirst loaded (ascii "42 Kim") 0
          (ascii "berly")).1.name := by
  decide +kernel

/-- A name of 100 letters: `id` is what the stack holds behind it, if it lies
behind `name`. -/
example :
    let w := ascii "1 " ++ List.replicate 100 97
    (procInfoWrite .nameFirst loaded w 0 [0]).1.id = 0 ∧
      (procInfoWrite .nameFirst loaded w 0 [98, 0]).1.id = 98 ∧
      (procInfoWrite .idFirst loaded w 0 [98, 0]).1.id = 1 := by
  decide +kernel

/-! ## Both or none -/

/-- `id` and `name` are what was written, or an error is returned and they
are what they were. -/
def Atomic (layout : Layout) (g : Proc) (w : Bytes) (left : Nat)
    (stack : Bytes) : Prop :=
  (∃ val str, sscanf format (text w) = [.int val, .string str] ∧
      (procInfoWrite layout g w left stack).1.id = val ∧
      (procInfoWrite layout g w left stack).1.name.Holds str) ∨
    ((procInfoWrite layout g w left stack).2 < 0 ∧
      (procInfoWrite layout g w left stack).1.id = g.id ∧
      (procInfoWrite layout g w left stack).1.name = g.name)

/-- There is a number and a name that fits, and it ends where the write ends
or before. -/
def Complete (w stack : Bytes) : Prop :=
  ∃ u ∈ nameAt (text w), u ≠ [] ∧ Short nameSize u ∧
    (0 ∈ w ∨ (∃ c ∈ u, isSpace c = true) ∨
      ∀ c ∈ (text stack).head?, isSpace c = true)

instance (w stack : Bytes) : Decidable (Complete w stack) :=
  inferInstanceAs (Decidable (∃ u ∈ nameAt (text w), u ≠ [] ∧
    Short nameSize u ∧ (0 ∈ w ∨ (∃ c ∈ u, isSpace c = true) ∨
      ∀ c ∈ (text stack).head?, isSpace c = true)))

theorem procInfoWrite_refused {layout : Layout} {g : Proc} {w : Bytes}
    {left : Nat} (stack : Bytes)
    (h : bufSize < w.length ∨ notCopied w left ≠ 0) :
    procInfoWrite layout g w left stack = (g, -1) := by
  unfold procInfoWrite
  by_cases hlen : w.length > bufSize
  · rw [if_pos hlen]
  · rw [if_neg hlen, if_pos (h.resolve_left hlen)]

/-- What is scanned if there is a name in `w`. -/
theorem sscanf_written {w rest : Bytes} {val : BitVec 32} (stack : Bytes)
    (h : scanInt (text w) = some (val, rest)) (hname : skipSpaces rest ≠ []) :
    ∃ t, 0 ∉ t ∧ (0 ∈ w ∧ t = [] ∨ 0 ∉ w ∧ t = text stack) ∧
      sscanf format (text (w ++ stack)) =
        [.int val, .string (token (skipSpaces rest ++ t))] := by
  by_cases h0 : 0 ∈ w
  · refine ⟨[], List.not_mem_nil, Or.inl ⟨h0, rfl⟩, ?_⟩
    rw [text_append_of_mem stack h0, List.append_nil, sscanf_name h hname]
  · refine ⟨text stack, nulFree_text stack, Or.inr ⟨h0, rfl⟩, ?_⟩
    rw [text_eq_self h0] at h
    rw [text_append_of_not_mem stack h0, sscanf_append _ h hname]

theorem nulFree_scanned {w u t : Bytes} (hu : u <:+ text w) (ht : 0 ∉ t) :
    0 ∉ u ++ t := by
  intro h0
  rcases List.mem_append.mp h0 with h0 | h0
  · exact nulFree_text w (hu.subset h0)
  · exact ht h0

/-- The name that is stored is the one in `w`, as a whole. -/
theorem holds_iff {w u t stack : Bytes} (hw : w.length ≤ bufSize)
    (hu : u <:+ text w) (ht : 0 ∉ t)
    (hcases : 0 ∈ w ∧ t = [] ∨ 0 ∉ w ∧ t = text stack) :
    (named (u ++ t)).Holds (token u) ↔
      Short nameSize u ∧ (0 ∈ w ∨ (∃ c ∈ u, isSpace c = true) ∨
        ∀ c ∈ (text stack).head?, isSpace c = true) := by
  have hfree : 0 ∉ u ++ t := nulFree_scanned hu ht
  have hlen : u.length < shrtMax := by
    have htext : (text w).length ≤ w.length :=
      (List.takeWhile_prefix _).length_le
    have hle := hu.length_le
    have hfits : bufSize < shrtMax := by decide
    omega
  have hfits : nameSize ≤ shrtMax := by decide
  have hsame : token (u ++ t) = token u ↔
      0 ∈ w ∨ (∃ c ∈ u, isSpace c = true) ∨
        ∀ c ∈ (text stack).head?, isSpace c = true := by
    rcases hcases with ⟨h0, rfl⟩ | ⟨h0, rfl⟩
    · exact iff_of_true (by rw [List.append_nil]) (Or.inl h0)
    · rw [or_iff_right h0]
      exact token_append_eq_iff _ hlen
  rw [named, holds_store_iff _ (nulFree_token hfree), ← hsame]
  constructor
  · rintro ⟨hshort, heq⟩
    rw [← heq] at hshort
    exact ⟨(length_token_lt_iff hfits).mp hshort, heq.symm⟩
  · rintro ⟨hshort, heq⟩
    rw [heq]
    exact ⟨(length_token_lt_iff hfits).mpr hshort, rfl⟩

/-- A name that fits leaves `id` alone. -/
theorem idAfter_of_fits (layout : Layout) (val : BitVec 32) {str : Bytes}
    (h : str.length < nameSize) :
    layout.idAfter val (CBuffer.past nameSize (str ++ [0])) = val := by
  have hnone : CBuffer.past nameSize (str ++ [0]) = [] := by
    rw [past_eq_nil_iff, List.length_append]
    exact h
  cases layout with
  | idFirst => rfl
  | nameFirst =>
      have hsame : (ofInt val).store [] = ofInt val := by
        apply CBuffer.ext
        exact store_of_le (ofInt val) (Nat.zero_le 4)
      rw [hnone, Layout.idAfter, hsame, toInt_ofInt]

/-- A write changes `id` and `name` together or returns an error, unless it
is accepted and there is no number in it, no name, or a name that is too long
or goes on in the stack. -/
theorem atomic_iff (layout : Layout) (g : Proc) (w : Bytes) (left : Nat)
    (stack : Bytes) :
    Atomic layout g w left stack ↔
      bufSize < w.length ∨ notCopied w left ≠ 0 ∨ Complete w stack := by
  rw [← or_assoc]
  by_cases href : bufSize < w.length ∨ notCopied w left ≠ 0
  · refine iff_of_true (Or.inr ?_) (Or.inl href)
    rw [procInfoWrite_refused stack href]
    exact ⟨(by decide : (-1 : Int) < 0), rfl, rfl⟩
  · obtain ⟨hlen, hcopy⟩ := not_or.mp href
    have hw : w.length ≤ bufSize := Nat.le_of_not_lt hlen
    rw [or_iff_right href, Atomic,
      procInfoWrite_ok layout g stack hw (Decidable.not_not.mp hcopy),
      or_iff_left (fun h => absurd h.1 (by omega))]
    cases hscan : scanInt (text w) with
    | none =>
        rw [sscanf_none hscan]
        refine iff_of_false ?_ ?_
        · rintro ⟨val, str, h, -⟩
          cases h
        · rintro ⟨u, hu, -⟩
          simp [nameAt, hscan] at hu
    | some x =>
        obtain ⟨val, rest⟩ := x
        have hname : nameAt (text w) = some (skipSpaces rest) := by
          simp [nameAt, hscan]
        unfold Complete
        rw [hname]
        by_cases hnil : skipSpaces rest = []
        · rw [sscanf_int hscan hnil]
          refine iff_of_false ?_ ?_
          · rintro ⟨val, str, h, -⟩
            cases h
          · rintro ⟨u, hu, hne, -⟩
            rw [Option.mem_some_iff.mp hu] at hnil
            exact hne hnil
        · obtain ⟨t, ht, hcases, hwritten⟩ := sscanf_written stack hscan hnil
          have hsuffix : skipSpaces rest <:+ text w :=
            (List.dropWhile_suffix _).trans (suffix_of_scanInt hscan)
          have hholds := holds_iff hw hsuffix ht hcases
          rw [sscanf_name hscan hnil, hwritten]
          constructor
          · rintro ⟨val', str, h, -, hstr⟩
            simp only [List.cons.injEq, Stored.string.injEq] at h
            rw [← h.2.1] at hstr
            exact ⟨_, rfl, hnil, hholds.mp hstr⟩
          · rintro ⟨u, hu, -, hends⟩
            rw [← Option.mem_some_iff.mp hu] at hends
            have hstored := hholds.mpr hends
            have hfree := nulFree_scanned hsuffix ht
            have hfits := (holds_store_iff (zeros nameSize)
              (nulFree_token hfree)).mp hstored
            exact ⟨val, _, rfl, idAfter_of_fits layout val hfits.1, hstored⟩

/-- A number alone: `id` is set, `name` is emptied, and the write has
succeeded. -/
theorem atomic_iff_fails :
    procInfoWrite .nameFirst loaded (ascii "42\n") 0 [] =
        ({ id := 42, name := zeros nameSize, past := [] }, 3) ∧
      ¬ Atomic .nameFirst loaded (ascii "42\n") 0 [] := by
  refine ⟨by decide +kernel, ?_⟩
  rw [Atomic]
  rintro (⟨val, str, h, -⟩ | ⟨h, -⟩)
  · have hscan : sscanf format (text (ascii "42\n")) = [.int 42] := by
      decide +kernel
    rw [hscan] at h
    cases h
  · exact absurd h (by decide +kernel)

end EmbeddedSystem.Labs.SimpleProc
