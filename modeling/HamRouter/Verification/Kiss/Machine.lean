import HamRouter.Library.Transducer
import HamRouter.Program.Kiss
import Mathlib.Data.List.ReduceOption

/-! # Successive calls as one machine

A call that returns forgets its variables, so the calls together are a machine that is
reset at each return. -/

namespace HamRouter.Kiss

open Transducer

/-- One read, and the result of the call that ends there. -/
def receive (s : Receiver) : ReadResult → Receiver × List (Option (List UInt8))
  | .interrupted => (s, [])
  | .failed => ({}, [none])
  | .byte buffer =>
      match onByte s buffer with
      | .next s => (s, [])
      | .leave ok packet => ({}, [finish ok packet])

theorem receive_next {s t : Receiver} {b : UInt8} (h : onByte s b = .next t) :
    receive s (.byte b) = (t, []) := by
  simp only [receive, h]

theorem receive_leave {s : Receiver} {b : UInt8} {ok : Bool} {packet : List UInt8}
    (h : onByte s b = .leave ok packet) : receive s (.byte b) = ({}, [finish ok packet]) := by
  simp only [receive, h]

theorem feed_receive_of_recvLoop (s : Receiver) (reads : List ReadResult) :
    match recvLoop s reads with
    | .waiting last => feed receive s reads = (last, [])
    | .returned result unread =>
        feed receive s reads =
          ((feed receive {} unread).1, result :: (feed receive {} unread).2) := by
  induction reads generalizing s with
  | nil => rfl
  | cons r rest ih =>
      cases r with
      | interrupted => exact ih s
      | failed => rfl
      | byte buffer =>
          cases hbyte : onByte s buffer with
          | next t =>
              simp only [recvLoop, hbyte, feed_cons_of_step _ (receive_next hbyte)]
              exact ih t
          | leave ok packet =>
              simp only [recvLoop, hbyte, feed_cons_of_step _ (receive_leave hbyte)]
              rfl

theorem recvCalls_eq_feed (reads : List ReadResult) :
    recvCalls reads = ((feed receive {} reads).2, (feed receive {} reads).1) := by
  induction reads using recvCalls.induct with
  | case1 reads s hcall =>
      have hloop := feed_receive_of_recvLoop {} reads
      rw [← recvMkiss, hcall] at hloop
      rw [recvCalls, hloop]
      split <;> simp_all
  | case2 reads result unread hcall ih =>
      have hloop := feed_receive_of_recvLoop {} reads
      rw [← recvMkiss, hcall] at hloop
      rw [recvCalls, hloop]
      split <;> simp_all

/-- An interrupted read is made again. -/
theorem recvCalls_interrupted (reads more : List ReadResult) :
    recvCalls (reads ++ .interrupted :: more) = recvCalls (reads ++ more) := by
  simp [recvCalls_eq_feed, feed_append, feed_cons, receive]

/-! ## Bytes only -/

def receiveBytes (s : Receiver) (stream : List UInt8) : Receiver × List (Option (List UInt8)) :=
  feed receive s (stream.map .byte)

@[simp] theorem receiveBytes_nil (s : Receiver) : receiveBytes s [] = (s, []) := rfl

theorem receiveBytes_append (s : Receiver) (xs ys : List UInt8) :
    receiveBytes s (xs ++ ys) =
      ((receiveBytes (receiveBytes s xs).1 ys).1,
        (receiveBytes s xs).2 ++ (receiveBytes (receiveBytes s xs).1 ys).2) := by
  simp [receiveBytes, feed_append]

theorem receiveBytes_cons_next {s t : Receiver} {b : UInt8} (h : onByte s b = .next t)
    (rest : List UInt8) : receiveBytes s (b :: rest) = receiveBytes t rest := by
  exact feed_cons_of_step _ (receive_next h) _

theorem receiveBytes_cons_leave {s : Receiver} {b : UInt8} {ok : Bool} {packet : List UInt8}
    (h : onByte s b = .leave ok packet) (rest : List UInt8) :
    receiveBytes s (b :: rest) =
      ((receiveBytes {} rest).1, finish ok packet :: (receiveBytes {} rest).2) := by
  exact feed_cons_of_step _ (receive_leave h) _

/-- The packets that the calls return with success. -/
def delivered (stream : List UInt8) : List (List UInt8) :=
  (recvCalls (stream.map .byte)).1.reduceOption

/-- The variables of the call that waits at the end of the stream. -/
def waiting (stream : List UInt8) : Receiver := (recvCalls (stream.map .byte)).2

theorem delivered_eq (stream : List UInt8) :
    delivered stream = (receiveBytes {} stream).2.reduceOption := by
  rw [delivered, recvCalls_eq_feed, receiveBytes]

theorem waiting_eq (stream : List UInt8) : waiting stream = (receiveBytes {} stream).1 := by
  rw [waiting, recvCalls_eq_feed, receiveBytes]

end HamRouter.Kiss
