import Mathlib.Logic.Function.Basic
import YcAgent.Attach.OpenJ9Handshake
import YcAgent.Base.Run

/-!
# Attaching to OpenJ9 JVMs

`jattach_openj9` up to the conversation. JVMs with one temporary directory share the files in
its `.com_ibm_tools_attach` and one semaphore. A client takes the attach lock, leaves a reply
file for its JVM, takes the notification lock of every JVM, wakes them all, and undoes it when
its JVM has answered or time is up. Clients and JVMs run in any order, and a client may be
killed at any call.
-/
namespace YcAgent.Attach.OpenJ9

open Go hiding atoi

/-- The call that a client makes next. -/
inductive Pc where
  | acquire
  | createSocket
  | openReply
  | writeReply
  | readDir
  | notify
  | post
  | accept
  | unlinkReply
  | closeSocket
  | unlock
  | withdrawNotify
  | withdraw
  | release
  | done
  | killed
  deriving DecidableEq

structure Client where
  nspid : ℤ
  pc : Pc
  /-- the port of the socket `s` -/
  s : Option ℕ
  /-- what went into the reply file -/
  reply : GoString
  /-- `notif_lock`, by the directory whose file is locked; `none` where it could not be -/
  notifLock : List (Option GoString)
  i : ℕ
  /-- `notif_count` in `notify_semaphore` -/
  notifCount : ℕ
  connected : Bool

inductive Owner (ι : Type*) where
  | client (i : ι)
  | jvm
  deriving DecidableEq

/-- The files and the semaphore in `.com_ibm_tools_attach`. -/
structure Shared (ι : Type*) where
  attachLock : Option ι
  replyInfo : ℤ → Option GoString
  notif : GoString → Option (Owner ι)
  sem : ℕ

inductive Call where
  | acquireLock (ok : Bool)
  | createSocket (port : Option ℕ)
  | openReply (ok : Bool)
  | writeReply (key : UInt64) (n : ℕ)
  | entry (name : GoString) (dir ok : Bool)
  | endOfDir
  | semget (ok : Bool)
  | semop (ok : Bool)
  | notified
  | accept (ok : Bool)
  | unlink (ok : Bool)
  | close
  | unlockNext
  | unlocked
  | release
  | kill

def maxNotifFiles : ℕ := 256

/-- The entries of the directory that are a JVM's. -/
def isJvmDir (name : GoString) (dir : Bool) : Bool :=
  dir && name.head?.any fun b => decide (49 ≤ b ∧ b ≤ 57)

variable {ι : Type*} [DecidableEq ι]

/-- A call of the client `i`, with its outcome. -/
def Client.step (i : ι) (c : Client) (w : Shared ι) (call : Call) : Option (Client × Shared ι) :=
  match c.pc, call with
  | .acquire, .acquireLock ok =>
    if ok then
      if w.attachLock = none then
        some ({ c with pc := .createSocket }, { w with attachLock := some i })
      else none
    else some ({ c with pc := .done }, w)
  | .createSocket, .createSocket port =>
    match port with
    | some port => some ({ c with s := some port, pc := .openReply }, w)
    | none => some ({ c with pc := .release }, w)
  | .openReply, .openReply ok =>
    if ok then
      some ({ c with pc := .writeReply },
        { w with replyInfo := Function.update w.replyInfo c.nspid (some []) })
    else some ({ c with pc := .unlinkReply }, w)
  | .writeReply, .writeReply key n =>
    -- the number of bytes that were written is not looked at
    let text := (replyText (c.s.getD 0) key).take n
    some ({ c with reply := text, pc := .readDir },
      { w with replyInfo := Function.update w.replyInfo c.nspid (some text) })
  | .readDir, .entry name dir ok =>
    if c.notifLock.length < maxNotifFiles then
      if isJvmDir name dir then
        if ok then
          if w.notif name = none then
            some ({ c with notifLock := c.notifLock ++ [some name] },
              { w with notif := Function.update w.notif name (some (.client i)) })
          else none
        else some ({ c with notifLock := c.notifLock ++ [none] }, w)
      else some (c, w)
    else none
  | .readDir, .endOfDir => some ({ c with pc := .notify }, w)
  | .notify, .semget ok =>
    if ok then some ({ c with pc := .post, notifCount := c.notifLock.length }, w)
    else some ({ c with pc := .unlinkReply }, w)
  | .post, .semop ok =>
    if 0 < c.notifCount then
      some ({ c with notifCount := c.notifCount - 1 },
        if ok then { w with sem := w.sem + 1 } else w)
    else none
  | .post, .notified => if c.notifCount = 0 then some ({ c with pc := .accept }, w) else none
  | .accept, .accept ok => some ({ c with connected := ok, pc := .unlinkReply }, w)
  | .unlinkReply, .unlink ok =>
    -- its result is not looked at
    some ({ c with pc := .closeSocket },
      if ok then { w with replyInfo := Function.update w.replyInfo c.nspid none } else w)
  | .closeSocket, .close => some ({ c with s := none, pc := .unlock }, w)
  | .unlock, .unlockNext =>
    match c.notifLock[c.i]? with
    | some (some name) =>
      some ({ c with i := c.i + 1 }, { w with notif := Function.update w.notif name none })
    | some none => some ({ c with i := c.i + 1 }, w)
    | none => none
  | .unlock, .unlocked =>
    if c.notifLock.length ≤ c.i then
      some ({ c with
        pc := if c.connected ∨ c.notifLock ≠ [] then .withdrawNotify else .release }, w)
    else none
  | .withdrawNotify, .semget ok =>
    if ok then some ({ c with pc := .withdraw, notifCount := c.notifLock.length }, w)
    else some ({ c with pc := .release }, w)
  | .withdraw, .semop ok =>
    -- `IPC_NOWAIT`: it fails where the value is zero
    if 0 < c.notifCount ∧ ok = decide (0 < w.sem) then
      some ({ c with notifCount := c.notifCount - 1 }, { w with sem := w.sem - 1 })
    else none
  | .withdraw, .notified =>
    if c.notifCount = 0 then some ({ c with pc := .release }, w) else none
  | .release, .release => some ({ c with pc := .done }, { w with attachLock := none })
  | .done, _ => none
  | .killed, _ => none
  | _, .kill =>
    -- what the kernel closes is unlocked, and nothing else is undone
    some ({ c with pc := .killed, s := none, notifLock := [] },
      { w with
        attachLock := if w.attachLock = some i then none else w.attachLock
        notif := fun name => if w.notif name = some (.client i) then none else w.notif name })
  | _, _ => none

structure System (ι : Type*) where
  client : ι → Client
  shared : Shared ι

inductive Action (ι : Type*) where
  | client (i : ι) (call : Call)
  | jvmWaits
  | jvmLocks (name : GoString)
  | jvmUnlocks (name : GoString)

def System.step (sys : System ι) : Action ι → Option (System ι)
  | .client i call =>
    ((sys.client i).step i sys.shared call).map fun (c, w) =>
      ⟨Function.update sys.client i c, w⟩
  | .jvmWaits =>
    if 0 < sys.shared.sem then
      some { sys with shared := { sys.shared with sem := sys.shared.sem - 1 } }
    else none
  | .jvmLocks name =>
    if sys.shared.notif name = none then
      some { sys with shared := { sys.shared with
        notif := Function.update sys.shared.notif name (some .jvm) } }
    else none
  | .jvmUnlocks name =>
    if sys.shared.notif name = some .jvm then
      some { sys with shared := { sys.shared with
        notif := Function.update sys.shared.notif name none } }
    else none

end YcAgent.Attach.OpenJ9
