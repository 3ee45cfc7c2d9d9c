import Ct.Lib.Machine
import Mathlib.Logic.Function.Basic

set_option autoImplicit false

namespace Ct.Cctools

open Ct.Lib

/-- `enum native_message` -/
inductive NativeMessage
  | threadNone
  | threadExit
  | threadFilesync
  deriving DecidableEq, Repr

/-- What the callers of `native_send_message` pass: `MSG_THREAD_EXIT` or `MSG_THREAD_FILESYNC`. -/
abbrev Sendable := { msg : NativeMessage // msg ≠ .threadNone }

inductive Thread
  | loop
  | call (id : Nat)
  deriving DecidableEq, Repr

/-- Where the thread of `native_main_loop` stands. -/
inductive LoopPc
  /-- `while(p->en)` -/
  | enTest
  /-- `pthread_mutex_lock` -/
  | lock
  /-- `while(p->what == MSG_THREAD_NONE)` -/
  | whatTest
  /-- in `pthread_cond_wait`, without the mutex -/
  | waiting
  /-- still there, but woken up -/
  | woken
  /-- `switch(p->what)` -/
  | dispatch
  /-- `p->what = MSG_THREAD_NONE` -/
  | reset
  /-- `pthread_mutex_unlock` -/
  | unlock
  /-- the cleanup handler, which frees the descriptor -/
  | cleanup
  | done
  deriving DecidableEq, Repr

/-- Where a call of `native_send_message` stands. -/
inductive CallPc
  | idle
  | lock (msg : Sendable)
  | store (msg : Sendable)
  | signal
  | unlock
  /-- it has returned 0 -/
  | returned
  /-- it has found no main loop -/
  | refused
  deriving DecidableEq, Repr

/-- The main loop, its descriptor and the calls of `native_send_message`, with what has happened:
the calls in the order in which they have stored their messages, those that have returned 0, and
those whose messages have been handled, up to the first `MSG_THREAD_EXIT` that is. `box` is the
call whose message is in `what`. -/
structure State where
  gMloop : Bool
  what : NativeMessage
  en : Bool
  owner : Option Thread
  loop : LoopPc
  calls : Nat → CallPc
  box : Nat
  stored : List Nat
  sent : List Nat
  handled : List Nat

/-- After `native_create`. -/
def created : State where
  gMloop := true
  what := .threadNone
  en := true
  owner := none
  loop := .enTest
  calls _ := .idle
  box := 0
  stored := []
  sent := []
  handled := []

inductive Action
  | loop
  /-- `pthread_cond_wait` returns without a signal -/
  | spurious
  /-- a thread calls `native_send_message` -/
  | enter (id : Nat) (msg : Sendable)
  /-- the next step of this call -/
  | sender (id : Nat)
  deriving DecidableEq

/-- A step of `native_main_loop`. -/
def nativeMainLoop (s : State) : Option State :=
  match s.loop with
  | .enTest => some { s with loop := if s.en then .lock else .cleanup }
  | .lock =>
    if s.owner = none then some { s with owner := some .loop, loop := .whatTest } else none
  | .whatTest =>
    if s.what = .threadNone then some { s with owner := none, loop := .waiting }
    else some { s with loop := .dispatch }
  | .waiting => none
  | .woken =>
    if s.owner = none then some { s with owner := some .loop, loop := .whatTest } else none
  | .dispatch =>
    match s.what with
    | .threadExit => some { s with loop := .reset, en := false, handled := s.handled ++ [s.box] }
    | .threadFilesync => some { s with loop := .reset, handled := s.handled ++ [s.box] }
    | .threadNone => some { s with loop := .reset }
  | .reset => some { s with loop := .unlock, what := .threadNone }
  | .unlock => some { s with loop := .enTest, owner := none }
  | .cleanup => some { s with loop := .done, gMloop := false }
  | .done => none

/-- A call of `native_send_message` begins: `if(!g_mloop)`. -/
def callEnters (s : State) (id : Nat) (msg : Sendable) : Option State :=
  if s.calls id = .idle then
    some { s with calls := Function.update s.calls id (if s.gMloop then .lock msg else .refused) }
  else none

/-- A step of `native_send_message` behind its test. Once the descriptor is freed it has no
defined result. What it returns counts as long as no `MSG_THREAD_EXIT` has been handled. -/
def nativeSendMessage (s : State) (id : Nat) : Option State :=
  if s.gMloop then
    match s.calls id with
    | .lock msg =>
      if s.owner = none then
        some { s with
          owner := some (.call id), calls := Function.update s.calls id (.store msg) }
      else none
    | .store msg =>
      some { s with
        what := msg.val, box := id, stored := if s.en then s.stored ++ [id] else s.stored,
        calls := Function.update s.calls id .signal }
    | .signal =>
      some { s with
        loop := if s.loop = .waiting then .woken else s.loop,
        calls := Function.update s.calls id .unlock }
    | .unlock =>
      some { s with
        owner := none, sent := if s.en then s.sent ++ [id] else s.sent,
        calls := Function.update s.calls id .returned }
    | _ => none
  else none

def mailbox : Machine State Action where
  step s
    | .loop => nativeMainLoop s
    | .spurious => if s.loop = .waiting then some { s with loop := .woken } else none
    | .enter id msg => callEnters s id msg
    | .sender id => nativeSendMessage s id

end Ct.Cctools
