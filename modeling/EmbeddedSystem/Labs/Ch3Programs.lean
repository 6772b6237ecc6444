import EmbeddedSystem.Labs.Ch3Answers
import EmbeddedSystem.Verified.CString

/-!
# `ch3_writer.c` and `ch3_reader.c`

One run of either program after another, each with a single ioctl that
succeeds.  Next to the module a session keeps the strings that were written
and not read yet, oldest first.  The module's queue holds their messages
(`Consistent`), so every reader gets what it should.

The empty queue answers with a message, the string `"0"`, and `ch3_reader`
cannot tell it from a message that was written: a reader is told the truth
exactly when the oldest unread string is not `"0"` (`delivers_iff`).
-/

set_option autoImplicit false

namespace EmbeddedSystem.Labs.Ch3Queue

open EmbeddedSystem.Verified
open EmbeddedSystem.Verified.CString
open EmbeddedSystem.Verified.Transition
open EmbeddedSystem.Verified.CallPool
open EmbeddedSystem.Verified.FifoHistory

/-! ## The programs -/

/-- The bytes of a non-negative `int`, least significant first. -/
def intBytes (n : Nat) : Bytes :=
  [ UInt8.ofNat n, UInt8.ofNat (n / 0x100), UInt8.ofNat (n / 0x10000)
  , UInt8.ofNat (n / 0x1000000) ]

/-- `user_str.str` of `ch3_writer`, with the NUL at its end. -/
def writerStr (argv1 : CStr) : Bytes := strncpy 127 argv1 ++ [0]

/-- `user_str` of `ch3_writer`. -/
def writerMsg (argv1 : CStr) : MsgSt :=
  ⟨(intBytes (strlen (writerStr argv1)) ++ writerStr argv1).toArray, by
    simp [intBytes, writerStr, length_strncpy]⟩

/-- `user_str.str` -/
def msgStr (userStr : MsgSt) : Bytes := userStr.toList.drop 4

/-- `"0"` -/
def zeroStr : CStr := ⟨ascii "0", by decide⟩

/-- What `ch3_reader` prints. -/
inductive Output where
  | empty
  | message (s : Bytes)
deriving DecidableEq, Repr

/-- The end of `ch3_reader`, after the ioctl. -/
def readerOutput (userStr : MsgSt) : Output :=
  let str := CStr.ofBuffer (msgStr userStr)
  if strcmp str zeroStr = 0 then .empty else .message str.bytes

/-- A run of one of the programs: a writer with its argument, or a reader
with the contents of its `user_str` before the ioctl. -/
inductive Program where
  | writer (argv1 : CStr)
  | reader (userStr : MsgSt)
deriving DecidableEq, Repr

/-- The ioctl that the program makes. -/
def Program.ioctl : Program → Ioctl
  | .writer argv1 => ⟨ch3IoctlWrite, writerMsg argv1⟩
  | .reader userStr => ⟨ch3IoctlRead, userStr⟩

/-! ## Sessions -/

/-- The module, and the strings written and not read yet, oldest first. -/
structure Session where
  module : Conf
  unread : List CStr
deriving DecidableEq, Repr

/-- No program has run yet. -/
def Session.start : Session := ⟨loaded, []⟩

/-- What is unread after a run of the program. -/
def Program.unread (unread : List CStr) : Program → List CStr
  | .writer argv1 => unread ++ [argv1]
  | .reader _ => unread.tail

/-- One program runs to its end, and its ioctl succeeds. -/
def Session.step (s : Session) (a : Program × List Outcome) :
    Option Session :=
  if a.2.all Outcome.smooth then
    (alone ch3Ioctl ch3Step Call.ended s.module (a.1.ioctl, a.2)).map
      fun d => ⟨d, a.1.unread s.unread⟩
  else none

/-! ## One ioctl on its own -/

/-- A call alone adds only operations of its own to the history. -/
theorem solo_history {i : Nat} {g g' : Ch3} {l l' : Call} {os : List Outcome}
    (h : solo ch3Step i (g, l) os = some (g', l')) :
    ∃ ops, g'.history = g.history ++ ops ∧ ∀ op ∈ ops, op.who = i := by
  refine run_induct (P := fun s : Ch3 × Call => ∃ ops,
    s.1.history = g.history ++ ops ∧ ∀ op ∈ ops, op.who = i)
    ?_ ⟨[], (List.append_nil _).symm, fun op hop => by cases hop⟩ h
  rintro ⟨g1, l1⟩ o ⟨g2, l2⟩ ⟨ops, hops, hwho⟩ hst
  rcases ch3Step_history hst with hsame | ⟨op, hop, happ⟩
  · exact ⟨ops, hsame.trans hops, hwho⟩
  · refine ⟨ops ++ [op], ?_, fun op' hop' => ?_⟩
    · show g2.history = _
      rw [happ, show g1.history = _ from hops, List.append_assoc]
    · rcases List.mem_append.mp hop' with hold | hnew
      · exact hwho op' hold
      · rw [List.mem_singleton.mp hnew]
        exact hop

/-- What the caller wants: to read, or to write this message. -/
inductive Kind where
  | read
  | write (m : MsgSt)
  | other
deriving DecidableEq, Repr

def Call.kind : Call → Kind
  | .read _ => .read
  | .write w => .write w.userBuf
  | .other => .other

theorem ch3Step_kind {g g' : Ch3} {i : Nat} {l l' : Call} {o : Outcome}
    (h : ch3Step g i l o = some (g', l')) : l'.kind = l.kind := by
  rcases ch3Step_cases h with
    ⟨r, r', hr, hr', -⟩ | ⟨w, w', hw, hw', hwrite⟩
  · rw [hr, hr']
    rfl
  · rw [hw, hw']
    cases hwrite <;> rfl

/-- A call does not become another one. -/
theorem solo_kind {i : Nat} {g g' : Ch3} {l l' : Call} {os : List Outcome}
    (h : solo ch3Step i (g, l) os = some (g', l')) : l'.kind = l.kind :=
  run_induct (P := fun s : Ch3 × Call => s.2.kind = l.kind)
    (fun _ _ _ hs hst => (ch3Step_kind hst).trans hs) rfl h

/-- An ioctl alone that nothing goes wrong for has its whole effect, and that
is all that happens. -/
theorem alone_fullEffect {c d : Conf} {k : Ioctl} {os : List Outcome}
    (hc : Invariant c) (hos : os.all Outcome.smooth = true)
    (h : alone ch3Ioctl ch3Step Call.ended c (k, os) = some d) :
    Invariant d ∧ ∃ l, d.calls = c.calls ++ [l] ∧
      l.kind = (ch3Ioctl k).kind ∧ FullEffect d.shared c.calls.length l ∧
      d.shared.history =
        c.shared.history ++ opsOf c.calls.length d.shared.history := by
  obtain ⟨hrun, g, l, hsolo, hended, hd⟩ := run_alone h
  have hinv : Invariant d := run_induct invariant_step hc hrun
  have hcalls : d.calls = c.calls ++ [l] := by rw [hd]
  have hlast : d.calls[c.calls.length]? = some l := by
    rw [hcalls]
    exact List.getElem?_concat_length
  have hclean : Along step (Clean c.calls.length) c
      (.issue k :: os.map (Move.advance c.calls.length)) := by
    apply clean_of_smoothMoves
    rw [List.all_cons, List.all_map]
    exact hos
  have hspoilt : l.spoilt = false := by
    rw [← Bool.not_eq_true]
    intro hs
    rcases (flag_iff_not_along invariant_step spoilt_step hc hrun).mp
      ⟨l, hlast, hs⟩ with ⟨m, hm, -⟩ | hnot
    · have hlt := lookup_lt hm
      omega
    · exact hnot hclean
  have hfull := (fullEffect_iff (hinv.2.call _ l hlast) hended).mpr hspoilt
  obtain ⟨ops, hops, hwho⟩ := solo_history hsolo
  have hmine : opsOf c.calls.length d.shared.history = ops := by
    have hnone : opsOf c.calls.length c.shared.history = [] := by
      apply List.filter_eq_nil_iff.mpr
      intro op hop
      have hlt := hc.2.shared.2 op hop
      rw [decide_eq_true_iff]
      omega
    rw [hd, show g.history = _ from hops, opsOf_append, hnone,
      List.nil_append]
    apply List.filter_eq_self.mpr
    intro op hop
    exact decide_eq_true (hwho op hop)
  refine ⟨hinv, l, hcalls, solo_kind hsolo, hfull.2, ?_⟩
  rw [hmine, hd]
  exact hops

/-! ## The queue holds what is unread -/

/-- The queue holds the messages of the unread strings. -/
def Consistent (s : Session) : Prop :=
  Invariant s.module ∧
    Legal s.module.shared.history (s.unread.map writerMsg)

theorem start_consistent : Consistent Session.start :=
  ⟨invariant_loaded, legal_nil⟩

/-- What a run of a program does: a writer's string becomes unread, and a
reader gets the message of the oldest unread one, or the marker. -/
inductive Ran (s : Session) (t : Session) : Program → Prop where
  | writer (argv1 : CStr) (hunread : t.unread = s.unread ++ [argv1]) :
      Ran s t (.writer argv1)
  | received (userStr : MsgSt) (r : ReadCall) (str : CStr) (rest : List CStr)
      (hcalls : t.module.calls = s.module.calls ++ [.read r])
      (hunread : s.unread = str :: rest) (hbuf : r.userBuf = writerMsg str) :
      Ran s t (.reader userStr)
  | foundEmpty (userStr : MsgSt) (r : ReadCall)
      (hcalls : t.module.calls = s.module.calls ++ [.read r])
      (hunread : s.unread = []) (hbuf : r.userBuf = emptyMsg) :
      Ran s t (.reader userStr)

theorem kind_ioctl (p : Program) :
    (ch3Ioctl p.ioctl).kind =
      match p with
      | .writer argv1 => .write (writerMsg argv1)
      | .reader _ => .read := by
  have hne : ch3IoctlWrite ≠ ch3IoctlRead := by decide
  cases p with
  | writer argv1 =>
      simp [Program.ioctl, ch3Ioctl, hne, Call.kind]
  | reader userStr => simp [Program.ioctl, ch3Ioctl, Call.kind]

theorem Consistent.step {s t : Session} {a : Program × List Outcome}
    (h : Consistent s) (hst : s.step a = some t) :
    Consistent t ∧ Ran s t a.1 := by
  obtain ⟨p, os⟩ := a
  unfold Session.step at hst
  split at hst
  case isFalse => cases hst
  case isTrue hos =>
    obtain ⟨d, halone, rfl⟩ := Option.map_eq_some_iff.mp hst
    obtain ⟨hinv, l, hcalls, hkind, hfull, hhistory⟩ :=
      alone_fullEffect h.1 hos halone
    have hlegal := h.2
    rw [kind_ioctl] at hkind
    cases p with
    | writer argv1 =>
        cases l with
        | write w =>
            have hmsg : w.userBuf = writerMsg argv1 := Kind.write.inj hkind
            have hops : opsOf s.module.calls.length d.shared.history =
                [.enqueue s.module.calls.length w.userBuf] := hfull
            refine ⟨⟨hinv, ?_⟩, .writer argv1 rfl⟩
            show Legal d.shared.history ((s.unread ++ [argv1]).map writerMsg)
            rw [hhistory, hops, hmsg, List.map_append]
            exact hlegal.enqueue _ _
        | read r => cases hkind
        | other => cases hkind
    | reader userStr =>
        cases l with
        | read r =>
            obtain ⟨q, hq, -⟩ := hinv.2.shared.1
            obtain ⟨-, hops | ⟨hops, hbuf⟩⟩ := hfull
            · have hd := hq
              rw [hhistory, hops] at hd
              have hfirst := hlegal.last_dequeue hd
              cases hunread : s.unread with
              | nil =>
                  rw [hunread] at hfirst
                  cases hfirst
              | cons str rest =>
                  rw [hunread, List.map_cons, List.cons.injEq] at hfirst
                  refine ⟨⟨hinv, ?_⟩, .received userStr r str rest hcalls
                    hunread hfirst.1.symm⟩
                  show Legal d.shared.history (rest.map writerMsg)
                  rw [hfirst.2]
                  exact hq
            · have hd := hq
              rw [hhistory, hops] at hd
              obtain ⟨hnone, hq'⟩ := hlegal.last_empty hd
              have hunread := List.map_eq_nil_iff.mp hnone
              refine ⟨⟨hinv, ?_⟩, .foundEmpty userStr r hcalls hunread hbuf⟩
              show Legal d.shared.history (s.unread.tail.map writerMsg)
              rw [hunread]
              rw [hq'] at hq
              exact hq
        | write w => cases hkind
        | other => cases hkind

/-! ## What readers print -/

theorem msgStr_writerMsg (argv1 : CStr) :
    msgStr (writerMsg argv1) = writerStr argv1 := by
  simp [msgStr, writerMsg, intBytes]

/-- A reader that got a string prints its first 127 bytes, unless that looks
like the marker. -/
theorem readerOutput_writerMsg (argv1 : CStr) :
    readerOutput (writerMsg argv1) =
      if argv1.bytes.take 127 = ascii "0" then .empty
      else .message (argv1.bytes.take 127) := by
  have htext : (CStr.ofBuffer (msgStr (writerMsg argv1))).bytes =
      argv1.bytes.take 127 := by
    rw [msgStr_writerMsg]
    exact text_strncpy 127 argv1
  unfold readerOutput
  simp only [strcmp_eq_zero_iff, htext]
  rfl

theorem readerOutput_emptyMsg : readerOutput emptyMsg = .empty := by
  decide +kernel

/-- Only the string `"0"` looks like the marker. -/
theorem take_eq_zero_iff (s : Bytes) :
    s.take 127 = ascii "0" ↔ s = ascii "0" := by
  have hone : (ascii "0").length = 1 := by decide
  constructor
  · intro h
    have hlen := congrArg List.length h
    rw [List.length_take, hone] at hlen
    rw [← h, List.take_of_length_le (by omega)]
  · intro h
    rw [h]
    decide

/-! ## The result -/

/-- What a reader is to print: the first 127 bytes of the oldest unread
string, or that there is none. -/
def expected : List CStr → Output
  | [] => .empty
  | str :: _ => .message (str.bytes.take 127)

/-- A run of the reader prints that. -/
def Delivers (s : Session) (a : Program × List Outcome) : Prop :=
  ∀ t, s.step a = some t → ∀ userStr, a.1 = .reader userStr →
    ∃ r, t.module.calls.getLast? = some (.read r) ∧
      readerOutput r.userBuf = expected s.unread

/-- No reader runs while the oldest unread string is `"0"`. -/
def NotMarker (s : Session) (a : Program × List Outcome) : Prop :=
  match a.1 with
  | .writer _ => True
  | .reader _ => ∀ str ∈ s.unread.head?, str.bytes ≠ ascii "0"

instance (s : Session) : ∀ a, Decidable (NotMarker s a)
  | (.writer _, _) => inferInstanceAs (Decidable True)
  | (.reader _, _) =>
      inferInstanceAs (Decidable
        (∀ str ∈ s.unread.head?, str.bytes ≠ ascii "0"))

theorem delivers_iff_notMarker {s t : Session}
    {a : Program × List Outcome} (h : Consistent s) (hst : s.step a = some t) :
    Delivers s a ↔ NotMarker s a := by
  have hran := (h.step hst).2
  obtain ⟨p, os⟩ := a
  -- the reader of this run is the last call
  have hlast : ∀ {userStr : MsgSt} {r : ReadCall}, p = .reader userStr →
      t.module.calls = s.module.calls ++ [.read r] →
      (Delivers s (p, os) ↔ readerOutput r.userBuf = expected s.unread) := by
    intro userStr r hp hcalls
    have hget : t.module.calls.getLast? = some (.read r) := by
      rw [hcalls, List.getLast?_concat]
    constructor
    · intro hdel
      obtain ⟨r', hr', hout⟩ := hdel t hst userStr hp
      rw [hget, Option.some.injEq, Call.read.injEq] at hr'
      rw [hr']
      exact hout
    · intro hout t' ht' _ _
      rw [hst, Option.some.injEq] at ht'
      subst ht'
      exact ⟨r, hget, hout⟩
  cases hran with
  | writer argv1 hunread =>
      refine iff_of_true (fun t' ht' userStr hp => ?_) trivial
      cases hp
  | received userStr r str rest hcalls hunread hbuf =>
      rw [hlast rfl hcalls, hbuf, readerOutput_writerMsg, hunread]
      unfold NotMarker
      dsimp only
      rw [hunread]
      simp only [take_eq_zero_iff, expected, List.head?_cons,
        Option.mem_some_iff, forall_eq']
      by_cases hzero : str.bytes = ascii "0"
      · simp [hzero]
      · simp [hzero]
  | foundEmpty userStr r hcalls hunread hbuf =>
      rw [hlast rfl hcalls, hbuf, readerOutput_emptyMsg, hunread]
      unfold NotMarker
      dsimp only
      rw [hunread]
      exact iff_of_true rfl fun str hstr => by cases hstr

/-- In every session of complete, successful runs: each reader prints what it
is to print if and only if no reader runs while the oldest unread string is
`"0"`. -/
theorem delivers_iff {as : List (Program × List Outcome)} {s : Session}
    (hrun : run Session.step Session.start as = some s) :
    Along Session.step Delivers Session.start as ↔
      Along Session.step NotMarker Session.start as :=
  along_iff_along (I := Consistent) (B := fun _ _ => True)
    (fun _ _ _ hs _ _ hst => (hs.step hst).1)
    (fun _ _ _ hs _ hst => delivers_iff_notMarker hs hst)
    start_consistent (along_of_forall fun _ _ _ => trivial) hrun

/-- `ch3_writer hi`, then two readers. -/
def hiRun : List (Program × List Outcome) :=
  [ (.writer ⟨ascii "hi", by decide⟩, List.replicate 4 smooth)
  , (.reader fullMsg, List.replicate 4 smooth)
  , (.reader fullMsg, List.replicate 2 smooth) ]

theorem delivers_iff_hiRun :
    Along Session.step Delivers Session.start hiRun := by
  have hsome : (run Session.step Session.start hiRun).isSome = true := by
    decide +kernel
  obtain ⟨s, hrun⟩ := Option.isSome_iff_exists.mp hsome
  exact (delivers_iff hrun).mpr (by decide +kernel)

/-- `ch3_writer 0`, then a reader. -/
def zeroRun : List (Program × List Outcome) :=
  [ (.writer zeroStr, List.replicate 4 smooth)
  , (.reader fullMsg, List.replicate 4 smooth) ]

/-- The reader takes the message and reports an empty queue. -/
theorem zeroRun_lost :
    ∃ s r, run Session.step Session.start zeroRun = some s ∧
      s.module.calls.getLast? = some (.read r) ∧
      readerOutput r.userBuf = .empty ∧
      expected [zeroStr] = .message (ascii "0") ∧
      ¬ Along Session.step Delivers Session.start zeroRun := by
  have hsome : (run Session.step Session.start zeroRun).isSome = true := by
    decide +kernel
  obtain ⟨s, hrun⟩ := Option.isSome_iff_exists.mp hsome
  obtain ⟨m, hwrite, hrest⟩ := run_cons_some hrun
  obtain ⟨t, hread, hnil⟩ := run_cons_some hrest
  rw [run_nil, Option.some.injEq] at hnil
  subst hnil
  obtain ⟨hm, hwrote⟩ := start_consistent.step hwrite
  have hone : m.unread = [zeroStr] := by
    cases hwrote with
    | writer argv1 hunread => exact hunread
  have hran := (hm.step hread).2
  cases hran with
  | foundEmpty userStr r hcalls hunread hbuf =>
      rw [hone] at hunread
      cases hunread
  | received userStr r str rest hcalls hunread hbuf =>
      rw [hone, List.cons.injEq] at hunread
      refine ⟨t, r, hrun, ?_, ?_, by decide, fun h => ?_⟩
      · rw [hcalls, List.getLast?_concat]
      · rw [hbuf, ← hunread.1, readerOutput_writerMsg]
        exact if_pos (by decide)
      · have hmarker := (delivers_iff_notMarker hm hread).mp (h.2 m hwrite).1
        have hhead : zeroStr ∈ m.unread.head? := by
          rw [hone]
          rfl
        exact hmarker zeroStr hhead rfl

end EmbeddedSystem.Labs.Ch3Queue
