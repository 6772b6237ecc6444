import EmbeddedSystem.Verified.CallPool
import EmbeddedSystem.Verified.Slab
import EmbeddedSystem.Verified.WaitQueue

/-!
# The blocking message queue of `ch4_mod_202111360.c`

`ch4_write` allocates a node and a message buffer, copies the caller's
message into the buffer and appends the node under `my_lock`; `ch4_read`
waits until the list is not empty, takes the first node off under `my_lock`,
copies the message out and frees node and buffer.  Both are modelled statement
by statement as calls of a `CallPool`: every `spin_lock` section is one atomic
step, and so are every test of the wait loop, allocation, user copy and
`kfree`.

`my_lock` itself does not appear, since nothing happens between taking and
releasing it.  The links of `struct msg_list` are represented by the order of
`msgListHead`.  `appended` and `removed` record what the two locked sections
did and are read by no code.
-/

set_option autoImplicit false

namespace EmbeddedSystem.Labs.Ch4Queue

open EmbeddedSystem.Verified
open EmbeddedSystem.Verified.Uaccess
open EmbeddedSystem.Verified.WaitQueue

/-! ## `ch4.h` -/

def ioctlStartNum : Nat := 0x80
def ioctlNum1 : Nat := ioctlStartNum + 1
def ioctlNum2 : Nat := ioctlStartNum + 2

/-- `'z'` -/
def simpleIoctlNum : Nat := 0x7a

/-- `_IOWR(SIMPLE_IOCTL_NUM, IOCTL_NUM1, unsigned long *)` -/
def ch4IoctlRead : Nat := iowr simpleIoctlNum ioctlNum1 8

/-- `_IOWR(SIMPLE_IOCTL_NUM, IOCTL_NUM2, unsigned long *)` -/
def ch4IoctlWrite : Nat := iowr simpleIoctlNum ioctlNum2 8

/-- `struct msg_st` byte for byte: `int len` and `char str[128]`. -/
abbrev MsgSt := Vector UInt8 132

/-! ## Shared state -/

/-- `struct msg_list`; `none` is a null pointer. -/
structure MsgList where
  msg : Option Nat
deriving DecidableEq, Repr

/-- One message passing `my_lock`: the call, the node and the contents of the
node's buffer at that moment. -/
structure Handed where
  call : Nat
  node : Nat
  msg : MsgSt
deriving DecidableEq, Repr

/-- The module's memory and globals. -/
structure Ch4 where
  nodes : Slab MsgList
  msgs : Slab MsgSt
  msgListHead : List Nat
  myWq : Queue
  appended : List Handed
  removed : List Handed
deriving DecidableEq, Repr

/-- After a successful `ch4_init`. -/
def ch4Init : Ch4 := ⟨Slab.empty, Slab.empty, [], [], [], []⟩

namespace Ch4

/-- `node->msg` -/
def msgPtr (g : Ch4) (n : Nat) : Option Nat := (g.nodes.get n).bind (·.msg)

/-- `*node->msg` -/
def contents (g : Ch4) (n : Nat) : Option MsgSt :=
  (g.msgPtr n).bind g.msgs.get

end Ch4

/-- What the environment decides in a step: whether a signal is pending, how
many bytes a user copy leaves behind, whether an allocation fails, and what
freshly allocated memory contains. -/
structure Outcome where
  signal : Bool
  left : Nat
  nomem : Bool
  junk : MsgSt
deriving DecidableEq, Repr

/-! ## `ch4_read` -/

/-- The next statement of a `ch4_read`.  Both ways out of the function after
the copy free the buffer and the node and return `code`. -/
inductive ReadPc where
  | wait (p : Phase)
  | lock
  | copy (firstNode : Nat) (tempMsg : MsgSt)
  | freeMsg (firstNode : Nat) (code : Int)
  | freeNode (firstNode : Nat) (code : Int)
  | returned (code : Int)
deriving DecidableEq, Repr

/-- A `ch4_read` in flight: the caller's buffer, the variable `ret`, what
`copy_to_user` returned once it ran, and the next statement. -/
structure ReadCall where
  userBuf : MsgSt
  ret : Int
  uncopied : Option Nat
  pc : ReadPc
deriving DecidableEq, Repr

/-- One step of `ch4_read` by call `i`.  A dereference of a pointer that was
never set is an oops: the call goes no further. -/
def ch4Read (g : Ch4) (i : Nat) (r : ReadCall) (o : Outcome) :
    Option (Ch4 × ReadCall) :=
  match r.pc with
  | .wait p =>
      match waitEventInterruptible g.myWq i false (!g.msgListHead.isEmpty)
          o.signal p with
      | none => none
      | some (q, .again p') => some ({ g with myWq := q }, { r with pc := .wait p' })
      | some (q, .done ret) =>
          some ({ g with myWq := q },
            { r with ret := ret, pc := if ret < 0 then .returned ret else .lock })
  | .lock =>
      match g.msgListHead with
      -- another reader was faster
      | [] => some (g, { r with pc := .returned (-efault) })
      | n :: rest =>
          match g.msgPtr n with
          | none => none
          | some b =>
              match g.msgs.get b with
              | none => none
              | some t =>
                  some ({ g with
                      nodes := g.nodes.touch n
                      msgs := g.msgs.touch b
                      msgListHead := rest
                      removed := g.removed ++ [⟨i, n, t⟩] },
                    { r with pc := .copy n t })
  | .copy n t =>
      some (g, { r with
        userBuf := copyUser r.userBuf t o.left
        uncopied := some o.left
        pc := .freeMsg n (if o.left = 0 then 0 else -efault) })
  | .freeMsg n code =>
      match g.msgPtr n with
      | none => none
      | some b =>
          some ({ g with nodes := g.nodes.touch n, msgs := g.msgs.kfree b },
            { r with pc := .freeNode n code })
  | .freeNode n code =>
      some ({ g with nodes := g.nodes.kfree n }, { r with pc := .returned code })
  | .returned _ => none

/-! ## `ch4_write` -/

/-- The next statement of a `ch4_write`. -/
inductive WritePc where
  | allocNode
  | allocMsg (newNode : Nat)
  | copy (newNode : Nat)
  | freeMsg (newNode : Nat) (code : Int)
  | freeNode (newNode : Nat) (code : Int)
  | lock (newNode : Nat)
  | wake
  | returned (code : Int)
deriving DecidableEq, Repr

/-- A `ch4_write` in flight. -/
structure WriteCall where
  userBuf : MsgSt
  pc : WritePc
deriving DecidableEq, Repr

/-- One step of `ch4_write` by call `i`. -/
def ch4Write (g : Ch4) (i : Nat) (w : WriteCall) (o : Outcome) :
    Option (Ch4 × WriteCall) :=
  match w.pc with
  | .allocNode =>
      if o.nomem then some (g, { w with pc := .returned (-enomem) })
      else
        -- `new_node->msg` is set before anything reads it
        some ({ g with nodes := g.nodes.kmalloc ⟨none⟩ },
          { w with pc := .allocMsg g.nodes.fresh })
  | .allocMsg n =>
      if o.nomem then
        some ({ g with nodes := (g.nodes.touch n).put n ⟨none⟩ },
          { w with pc := .freeNode n (-enomem) })
      else
        some ({ g with
            nodes := (g.nodes.touch n).put n ⟨some g.msgs.fresh⟩
            msgs := g.msgs.kmalloc o.junk },
          { w with pc := .copy n })
  | .copy n =>
      match g.msgPtr n with
      | none => none
      | some b =>
          some ({ g with
              nodes := g.nodes.touch n
              msgs := (g.msgs.touch b).put b (copyFromUser w.userBuf o.left) },
            { w with pc :=
                if o.left = 0 then .lock n else .freeMsg n (-efault) })
  | .freeMsg n code =>
      match g.msgPtr n with
      | none => none
      | some b =>
          some ({ g with nodes := g.nodes.touch n, msgs := g.msgs.kfree b },
            { w with pc := .freeNode n code })
  | .freeNode n code =>
      some ({ g with nodes := g.nodes.kfree n }, { w with pc := .returned code })
  | .lock n =>
      match g.contents n with
      | none => none
      | some m =>
          some ({ g with
              nodes := g.nodes.touch n
              msgListHead := g.msgListHead ++ [n]
              appended := g.appended ++ [⟨i, n, m⟩] },
            { w with pc := .wake })
  | .wake =>
      some ({ g with myWq := wakeUpInterruptible g.myWq },
        { w with pc := .returned 0 })
  | .returned _ => none

/-! ## `ch4_ioctl` -/

/-- The arguments of an `ioctl` on the device; `arg` points to `userBuf`. -/
structure Ioctl where
  cmd : Nat
  userBuf : MsgSt
deriving DecidableEq, Repr

/-- A call of `ch4_ioctl`. -/
inductive Call where
  | read (r : ReadCall)
  | write (w : WriteCall)
  | invalid (code : Int)
deriving DecidableEq, Repr

/-- The value a `ch4_read` has returned. -/
def Call.readResult : Call → Option Int
  | .read ⟨_, _, _, .returned code⟩ => some code
  | _ => none

/-- The value a `ch4_write` has returned. -/
def Call.writeResult : Call → Option Int
  | .write ⟨_, .returned code⟩ => some code
  | _ => none

theorem Call.readResult_eq_some {l : Call} {code : Int}
    (h : l.readResult = some code) :
    ∃ r, l = .read r ∧ r.pc = .returned code := by
  unfold readResult at h
  split at h
  · cases h
    exact ⟨_, rfl, rfl⟩
  · cases h

theorem Call.writeResult_eq_some {l : Call} {code : Int}
    (h : l.writeResult = some code) :
    ∃ w, l = .write w ∧ w.pc = .returned code := by
  unfold writeResult at h
  split at h
  · cases h
    exact ⟨_, rfl, rfl⟩
  · cases h

/-- The dispatch in `ch4_ioctl`. -/
def ch4Ioctl (k : Ioctl) : Call :=
  if k.cmd = ch4IoctlRead then .read ⟨k.userBuf, 0, none, .wait .entry⟩
  else if k.cmd = ch4IoctlWrite then .write ⟨k.userBuf, .allocNode⟩
  else .invalid (-einval)

/-- One step of a call. -/
def ch4Step (g : Ch4) (i : Nat) (l : Call) (o : Outcome) :
    Option (Ch4 × Call) :=
  match l with
  | .read r => (ch4Read g i r o).map fun x => (x.1, .read x.2)
  | .write w => (ch4Write g i w o).map fun x => (x.1, .write x.2)
  | .invalid _ => none

/-- The module with the calls in flight. -/
abbrev Conf := CallPool.Conf Ch4 Call

abbrev Move := CallPool.Move Ioctl Outcome

/-- One step of the whole module. -/
def step : Conf → Move → Option Conf := CallPool.step ch4Ioctl ch4Step

/-- The module right after it was loaded. -/
def loaded : Conf := CallPool.start ch4Init

/-! ## What the steps can do -/

/-- The steps of `ch4Read`, one constructor for each way through it. -/
inductive ReadStep (g : Ch4) (i : Nat) (r : ReadCall) :
    Ch4 → ReadCall → Prop where
  | waitAgain (p p' : Phase) (q : Queue) (hpc : r.pc = .wait p) :
      ReadStep g i r { g with myWq := q } { r with pc := .wait p' }
  | interrupted (p : Phase) (q : Queue) (ret : Int) (hpc : r.pc = .wait p)
      (hret : ret < 0) :
      ReadStep g i r { g with myWq := q }
        { r with ret := ret, pc := .returned ret }
  | woken (p : Phase) (q : Queue) (hpc : r.pc = .wait p) :
      ReadStep g i r { g with myWq := q } { r with ret := 0, pc := .lock }
  | recheckEmpty (hpc : r.pc = .lock) (hempty : g.msgListHead = []) :
      ReadStep g i r g { r with pc := .returned (-efault) }
  | take (n b : Nat) (rest : List Nat) (t : MsgSt) (hpc : r.pc = .lock)
      (hlist : g.msgListHead = n :: rest) (hptr : g.msgPtr n = some b)
      (hget : g.msgs.get b = some t) :
      ReadStep g i r
        { g with
          nodes := g.nodes.touch n
          msgs := g.msgs.touch b
          msgListHead := rest
          removed := g.removed ++ [⟨i, n, t⟩] }
        { r with pc := .copy n t }
  | copied (n : Nat) (t : MsgSt) (hpc : r.pc = .copy n t) :
      ReadStep g i r g
        { r with userBuf := t, uncopied := some 0, pc := .freeMsg n 0 }
  | faulted (n : Nat) (t : MsgSt) (left : Nat) (hpc : r.pc = .copy n t)
      (hleft : 0 < left) :
      ReadStep g i r g
        { r with
          userBuf := copyUser r.userBuf t left
          uncopied := some left
          pc := .freeMsg n (-efault) }
  | freeMsg (n b : Nat) (code : Int) (hpc : r.pc = .freeMsg n code)
      (hptr : g.msgPtr n = some b) :
      ReadStep g i r
        { g with nodes := g.nodes.touch n, msgs := g.msgs.kfree b }
        { r with pc := .freeNode n code }
  | freeNode (n : Nat) (code : Int) (hpc : r.pc = .freeNode n code) :
      ReadStep g i r { g with nodes := g.nodes.kfree n }
        { r with pc := .returned code }

theorem ch4Read_step {g g' : Ch4} {i : Nat} {r r' : ReadCall} {o : Outcome}
    (h : ch4Read g i r o = some (g', r')) : ReadStep g i r g' r' := by
  unfold ch4Read at h
  split at h
  case h_1 p hpc =>
    split at h
    case h_1 => cases h
    case h_2 q p' _ =>
      cases h
      exact .waitAgain p p' q hpc
    case h_3 q ret hw =>
      cases h
      rcases waitEventInterruptible_done hw with ⟨rfl, -⟩ | rfl
      · exact .woken p q hpc
      · exact .interrupted p q _ hpc (by decide)
  case h_2 hpc =>
    split at h
    case h_1 hempty =>
      cases h
      exact .recheckEmpty hpc hempty
    case h_2 n rest hlist =>
      split at h
      case h_1 => cases h
      case h_2 b hptr =>
        split at h
        case h_1 => cases h
        case h_2 t hget =>
          cases h
          exact .take n b rest t hpc hlist hptr hget
  case h_3 n t hpc =>
    cases h
    by_cases hleft : o.left = 0
    · rw [hleft, copyUser_zero, if_pos rfl]
      exact .copied n t hpc
    · rw [if_neg hleft]
      exact .faulted n t o.left hpc (Nat.pos_of_ne_zero hleft)
  case h_4 n code hpc =>
    split at h
    case h_1 => cases h
    case h_2 b hptr =>
      cases h
      exact .freeMsg n b code hpc hptr
  case h_5 n code hpc =>
    cases h
    exact .freeNode n code hpc
  case h_6 => cases h

/-- The steps of `ch4Write`, one constructor for each way through it. -/
inductive WriteStep (g : Ch4) (i : Nat) (w : WriteCall) :
    Ch4 → WriteCall → Prop where
  | noNode (hpc : w.pc = .allocNode) :
      WriteStep g i w g { w with pc := .returned (-enomem) }
  | allocNode (hpc : w.pc = .allocNode) :
      WriteStep g i w { g with nodes := g.nodes.kmalloc ⟨none⟩ }
        { w with pc := .allocMsg g.nodes.fresh }
  | noMsg (n : Nat) (hpc : w.pc = .allocMsg n) :
      WriteStep g i w { g with nodes := (g.nodes.touch n).put n ⟨none⟩ }
        { w with pc := .freeNode n (-enomem) }
  | allocMsg (n : Nat) (junk : MsgSt) (hpc : w.pc = .allocMsg n) :
      WriteStep g i w
        { g with
          nodes := (g.nodes.touch n).put n ⟨some g.msgs.fresh⟩
          msgs := g.msgs.kmalloc junk }
        { w with pc := .copy n }
  | copied (n b : Nat) (hpc : w.pc = .copy n) (hptr : g.msgPtr n = some b) :
      WriteStep g i w
        { g with
          nodes := g.nodes.touch n
          msgs := (g.msgs.touch b).put b w.userBuf }
        { w with pc := .lock n }
  | faulted (n b : Nat) (m : MsgSt) (hpc : w.pc = .copy n)
      (hptr : g.msgPtr n = some b) :
      WriteStep g i w
        { g with
          nodes := g.nodes.touch n
          msgs := (g.msgs.touch b).put b m }
        { w with pc := .freeMsg n (-efault) }
  | freeMsg (n b : Nat) (code : Int) (hpc : w.pc = .freeMsg n code)
      (hptr : g.msgPtr n = some b) :
      WriteStep g i w
        { g with nodes := g.nodes.touch n, msgs := g.msgs.kfree b }
        { w with pc := .freeNode n code }
  | freeNode (n : Nat) (code : Int) (hpc : w.pc = .freeNode n code) :
      WriteStep g i w { g with nodes := g.nodes.kfree n }
        { w with pc := .returned code }
  | append (n : Nat) (m : MsgSt) (hpc : w.pc = .lock n)
      (hcont : g.contents n = some m) :
      WriteStep g i w
        { g with
          nodes := g.nodes.touch n
          msgListHead := g.msgListHead ++ [n]
          appended := g.appended ++ [⟨i, n, m⟩] }
        { w with pc := .wake }
  | wake (hpc : w.pc = .wake) :
      WriteStep g i w { g with myWq := wakeUpInterruptible g.myWq }
        { w with pc := .returned 0 }

theorem ch4Write_step {g g' : Ch4} {i : Nat} {w w' : WriteCall} {o : Outcome}
    (h : ch4Write g i w o = some (g', w')) : WriteStep g i w g' w' := by
  unfold ch4Write at h
  split at h
  case h_1 hpc =>
    split at h
    · cases h
      exact .noNode hpc
    · cases h
      exact .allocNode hpc
  case h_2 n hpc =>
    split at h
    · cases h
      exact .noMsg n hpc
    · cases h
      exact .allocMsg n o.junk hpc
  case h_3 n hpc =>
    split at h
    case h_1 => cases h
    case h_2 b hptr =>
      cases h
      by_cases hleft : o.left = 0
      · rw [hleft, copyFromUser_zero, if_pos rfl]
        exact .copied n b hpc hptr
      · rw [if_neg hleft]
        exact .faulted n b _ hpc hptr
  case h_4 n code hpc =>
    split at h
    case h_1 => cases h
    case h_2 b hptr =>
      cases h
      exact .freeMsg n b code hpc hptr
  case h_5 n code hpc =>
    cases h
    exact .freeNode n code hpc
  case h_6 n hpc =>
    split at h
    case h_1 => cases h
    case h_2 m hcont =>
      cases h
      exact .append n m hpc hcont
  case h_7 hpc =>
    cases h
    exact .wake hpc
  case h_8 => cases h

/-- A step of a call is a step of its `ch4_read` or of its `ch4_write`. -/
theorem ch4Step_cases {g g' : Ch4} {i : Nat} {l l' : Call} {o : Outcome}
    (h : ch4Step g i l o = some (g', l')) :
    (∃ r r', l = .read r ∧ l' = .read r' ∧ ReadStep g i r g' r') ∨
      ∃ w w', l = .write w ∧ l' = .write w' ∧ WriteStep g i w g' w' := by
  cases l with
  | read r =>
      simp only [ch4Step, Option.map_eq_some_iff, Prod.mk.injEq] at h
      obtain ⟨⟨_, r'⟩, hr, rfl, rfl⟩ := h
      exact Or.inl ⟨r, r', rfl, rfl, ch4Read_step hr⟩
  | write w =>
      simp only [ch4Step, Option.map_eq_some_iff, Prod.mk.injEq] at h
      obtain ⟨⟨_, w'⟩, hw, rfl, rfl⟩ := h
      exact Or.inr ⟨w, w', rfl, rfl, ch4Write_step hw⟩
  | invalid code => simp [ch4Step] at h

end EmbeddedSystem.Labs.Ch4Queue
