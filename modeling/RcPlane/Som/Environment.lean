import RcPlane.Foundation.Network
import RcPlane.Som.MainLoop

/-!
# The SoM in any environment

The SoM by itself: any bytes may reach it in any pieces, and any operation that is not complete
may time out. What holds of these runs holds whatever is at the other end of the line.

## Main definitions

* `SomAction`, `Som.step`: what can happen to the SoM

## Main results

* `Som.Invariant.of_run`: an invariant of the steps holds along every run
-/

namespace RcPlane

open Foundation

/-- What can happen to the SoM: its own steps, with the piece that a transfer hands over and the
kind of operation that times out. -/
inductive SomAction
  | send
  | receive (piece : List UInt8)
  | done
  | timeout (o : SomTimeout)
deriving DecidableEq, Repr

namespace SomAction

/-! ## Schedules -/

/-- The flush finds its terminator, and the handshake byte is written. -/
def greets : List SomAction :=
  [receive [102, 108, 117, 115, 104, 13, 10], done, send, done]

/-- The first byte read is the acknowledgement, and the main loop begins. -/
def acknowledged : List SomAction := greets ++ [receive [1], done, done]

/-- Another byte is read before the acknowledgement. -/
def rejectedOnce : List SomAction := greets ++ [receive [0], done, receive [1], done, done]

/-- An iteration: its first packet has the given state, the rest of both packets is zero. -/
def iteration (state : UInt8) : List SomAction :=
  [receive [0, 0, 0, 0, state, 0, 0, 0, 0], done, receive (List.replicate 28 0), done,
    send, send, send, send, done]

/-- After an assisted iteration, the first read of the next one times out. -/
def timeoutInFlight : List SomAction :=
  acknowledged ++ iteration 0x80 ++ [timeout .read, receive (List.replicate 28 0), done]

/-- After an assisted iteration, the first packet of the next one asks for assistance too, and its
second read times out. -/
def imuTimeoutInFlight : List SomAction :=
  acknowledged ++ iteration 0x80 ++ [receive [0, 0, 0, 0, 0x80, 0, 0, 0, 0], done, timeout .read]

end SomAction

namespace Som

/-! ## Steps -/

variable {D : Type} [Double D]

/-- The effect of an action, if it can be taken. -/
def step (c : SomConfig D) (s : Som D) : SomAction → Option (Som D)
  | .send => s.send.map Prod.snd
  | .receive piece => s.receive c piece
  | .done => s.done c
  | .timeout o => s.timeout c o

variable {c : SomConfig D} {P : Som D → Prop} {s t : Som D}

theorem Invariant.of_step (hP : Invariant c (fun _ => True) P) {a : SomAction} (hs : P s)
    (h : step c s a = some t) : P t := by
  cases a with
  | send =>
    obtain ⟨⟨b, t⟩, hsend, rfl⟩ := Option.map_eq_some_iff.mp h
    exact hP.send hs hsend
  | receive piece => exact hP.receive hs h
  | done => exact hP.done hs h
  | timeout o => exact hP.timeout trivial hs h

/-- What every step of the SoM keeps holds along every run. -/
theorem Invariant.of_run (hP : Invariant c (fun _ => True) P) {acts : List SomAction} (hs : P s)
    (h : run (step c) s acts = some t) : P t :=
  run_induction (A := fun _ => True) hs (fun _ _ _ _ hs h => hP.of_step hs h)
    (fun _ _ => trivial) h

end Som

end RcPlane
