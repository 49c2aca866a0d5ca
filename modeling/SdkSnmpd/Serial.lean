import SdkSnmpd.Basic

/-!
# Requests over the Serial Port

`request_port` of `serial.c`: write a message, wait for an answer, and copy what is read into
the buffer of the caller. The `printf`s are left out.

## Contents

- `PortOutcome`: what `write`, `select` and `read` come to in one call.
- `PortOutcome.received`: the bytes that the call reads.
- `requestPort`: the value returned, the buffer, and the lines logged.
- `requestPort_of_received`, `requestPort_of_nothing`: a call that reads bytes, and one that does
  not.
-/

namespace SdkSnmpd

open Lib (Mem)

/-- What the wait for an answer comes to. -/
inductive Arrival where
  | selectFailed
  /-- Nothing arrives in time. The function ends without a `return` then, so that the caller
      finds some `int` in its place. -/
  | timeout (value : Int32)
  | readFailed
  /-- The bytes that wait in the port when it is read, none at the end of the file. -/
  | readable (arrived : List UInt8)

/-- The outcome of the system calls of one request. -/
structure PortOutcome where
  writeFailed : Bool
  arrival : Arrival

/-- The bytes that `read` returns: at most 56. The last of them lands behind the 55 bytes of
    the local buffer, and is copied from there. -/
def PortOutcome.received (outcome : PortOutcome) : List UInt8 :=
  match outcome.arrival with
  | .readable arrived => arrived.take 56
  | _ => []

/-- The result of a request: what is given to `write`, the value returned, the caller's
    buffer, and the log. -/
structure PortReply where
  sent : String
  value : Int32
  answer : Mem
  log : List String

/-- A failed write is logged, and the answer waited for all the same. -/
def PortOutcome.log (outcome : PortOutcome) : List String :=
  if outcome.writeFailed then ["write() serial of failed!\n"] else []

def requestPort (message : String) (answer : Mem) (outcome : PortOutcome) : PortReply :=
  match outcome.arrival with
  | .selectFailed => ⟨message, -1, answer, outcome.log⟩
  | .timeout value => ⟨message, value, answer, outcome.log⟩
  | .readFailed => ⟨message, -1, answer, outcome.log⟩
  | .readable _ =>
      let buffer := outcome.received
      if buffer.length ≤ 0 then ⟨message, -1, answer, outcome.log⟩
      else ⟨message, .ofNat buffer.length, answer.write 0 buffer, outcome.log⟩

namespace PortOutcome

variable {outcome : PortOutcome}

theorem length_received_le (outcome : PortOutcome) : outcome.received.length ≤ 56 := by
  unfold received
  split
  · rw [List.length_take]
    exact Nat.min_le_left _ _
  · exact Nat.zero_le _

/-- Positions below 56 are read as they have arrived. -/
theorem ofList_received {arrived : List UInt8} (h : outcome.arrival = .readable arrived) {i : Nat}
    (hi : i < 56) : Mem.ofList outcome.received i = arrived.getD i 0 := by
  simp only [received, h, Mem.ofList, List.getD_eq_getElem?_getD, List.getElem?_take, if_pos hi]

end PortOutcome

section

variable {outcome : PortOutcome}

/-- A call that reads bytes: they stand at the start of the buffer, and are counted. -/
theorem requestPort_of_received (message : String) (answer : Mem)
    (h : outcome.received ≠ []) :
    (requestPort message answer outcome).value = .ofNat outcome.received.length ∧
      (requestPort message answer outcome).answer = answer.write 0 outcome.received := by
  cases harrival : outcome.arrival with
  | readable arrived =>
    have hlen : ¬ outcome.received.length ≤ 0 := by
      rwa [Nat.le_zero, List.length_eq_zero_iff]
    simp only [requestPort, harrival, if_neg hlen, and_self]
  | selectFailed => exact absurd (by simp only [PortOutcome.received, harrival]) h
  | timeout value => exact absurd (by simp only [PortOutcome.received, harrival]) h
  | readFailed => exact absurd (by simp only [PortOutcome.received, harrival]) h

/-- A call that reads nothing returns -1, unless the time is up, and leaves the buffer. -/
theorem requestPort_of_nothing (message : String) (answer : Mem)
    (h : outcome.received = []) : requestPort message answer outcome =
      { sent := message
        value := match outcome.arrival with
          | .timeout value => value
          | _ => -1
        answer := answer
        log := outcome.log } := by
  cases harrival : outcome.arrival with
  | readable arrived =>
    have hlen : outcome.received.length ≤ 0 := by rw [h, List.length_nil]
    simp only [requestPort, harrival, if_pos hlen]
  | selectFailed | timeout | readFailed => simp only [requestPort, harrival]

end

end SdkSnmpd
