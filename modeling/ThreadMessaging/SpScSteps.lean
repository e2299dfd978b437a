import ThreadMessaging.Machine
import ThreadMessaging.ReleaseAcquire
import ThreadMessaging.SpScRingBuffer
import Mathlib.Logic.Function.Basic
/-!
# `SpScRingBuffer` between two threads: the steps

One producer thread calls `push` and `full`, one consumer thread calls `pop` and `empty`, each any number of times, on
a buffer that `init` has set up (`threading/spScRingBuffer.hpp`).  A step is one access to memory:

* `push`: load `m_head` (relaxed, the producer's own), load `m_tail` (acquire), write the slot, store `m_head`
  (release);
* `pop`: load `m_tail` (relaxed, the consumer's own), load `m_head` (acquire), copy the slot, store `m_tail` (release);
* `full`, `empty`: the two loads.

A load of the other side's index returns any value that side has stored that is not older than the one last seen, and
a slot is read as the reader's last acquire load lets it be read (`ReleaseAcquire`).  `published` and `delivered` are
the values of the pushes whose `m_head` store is done and of the pops whose `m_tail` store is done: no step reads them.
-/
namespace ThreadMessaging

inductive ProducerPc (T : Type)
  | idle
  | pushLoadHead (value : T)
  | pushLoadTail (value : T) (head : SizeT)
  | pushWrite (value : T) (head next : SizeT)
  | pushStore (value : T) (head next : SizeT)
  | pushReturn (ok : Bool)
  | fullLoadHead
  | fullLoadTail (head : SizeT)
  | fullReturn (full : Bool)
  deriving DecidableEq, Repr

inductive ConsumerPc (T : Type)
  | idle
  | popLoadTail
  | popLoadHead (tail : SizeT)
  | popCopy (tail : SizeT)
  | popStore (tail : SizeT) (out : T)
  | popReturn (out : Option T)
  | emptyLoadTail
  | emptyLoadHead (tail : SizeT)
  | emptyReturn (empty : Bool)
  deriving DecidableEq, Repr

structure Spsc (T : Type) where
  initialized : Bool
  mask        : SizeT
  slots       : Nat → List (Write T)
  head        : Atomic SizeT
  tail        : Atomic SizeT
  /-- The number of the `m_head` store the consumer has seen last. -/
  headSeen    : Nat
  /-- The number of the `m_tail` store the producer has seen last. -/
  tailSeen    : Nat
  producer    : ProducerPc T
  consumer    : ConsumerPc T
  published   : List T
  delivered   : List T

/-- What can happen next: a call, or a step of the call in progress; a load of the other side's index says which store
it returns, the copy of a slot which write. -/
inductive SpscAct (T : Type)
  | callPush (value : T)
  | callFull
  | producer
  | producerLoads (j : Nat)
  | callPop
  | callEmpty
  | consumer
  | consumerLoads (j : Nat)
  | consumerReads (k : Nat)
  deriving DecidableEq, Repr

namespace Spsc

variable {T : Type}

def init [Inhabited T] (rb : SpScRingBuffer T) : Spsc T where
  initialized := rb.initialized
  mask        := rb.mask
  slots i     := [⟨rb.buffer.getD i default, 0⟩]
  head        := .of rb.head
  tail        := .of rb.tail
  headSeen    := 0
  tailSeen    := 0
  producer    := .idle
  consumer    := .idle
  published   := []
  delivered   := []

/-- The producer's write of a slot; the next `m_head` store publishes it. -/
def writeSlot (s : Spsc T) (i : Nat) (value : T) : Nat → List (Write T) :=
  Function.update s.slots i (s.slots i ++ [⟨value, s.head.newest + 1⟩])

def producerStep (s : Spsc T) : Option (Spsc T) :=
  match s.producer with
  | .pushLoadHead value        => some { s with producer := .pushLoadTail value s.head.latest }
  | .pushWrite value head next => some { s with slots := s.writeSlot head.toNat value
                                                producer := .pushStore value head next }
  | .pushStore value _ next    => some { s with head := s.head.store next
                                                published := s.published ++ [value]
                                                producer := .pushReturn true }
  | .fullLoadHead              => some { s with producer := .fullLoadTail s.head.latest }
  | .pushReturn _              => some { s with producer := .idle }
  | .fullReturn _              => some { s with producer := .idle }
  | _                          => none

/-- The producer's acquire load of `m_tail` returns `tail`, the `j`-th store. -/
def producerLoad (s : Spsc T) (j : Nat) (tail : SizeT) : Option (Spsc T) :=
  match s.producer with
  | .pushLoadTail value head =>
    let next := SpScRingBuffer.next s.mask head
    if next = tail then some { s with tailSeen := j, producer := .pushReturn false }
    else some { s with tailSeen := j, producer := .pushWrite value head next }
  | .fullLoadTail head =>
    some { s with tailSeen := j, producer := .fullReturn (SpScRingBuffer.next s.mask head = tail) }
  | _ => none

def consumerStep (s : Spsc T) : Option (Spsc T) :=
  match s.consumer with
  | .popLoadTail       => some { s with consumer := .popLoadHead s.tail.latest }
  | .popStore tail out => some { s with tail := s.tail.store (SpScRingBuffer.next s.mask tail)
                                        delivered := s.delivered ++ [out]
                                        consumer := .popReturn (some out) }
  | .emptyLoadTail     => some { s with consumer := .emptyLoadHead s.tail.latest }
  | .popReturn _       => some { s with consumer := .idle }
  | .emptyReturn _     => some { s with consumer := .idle }
  | _                  => none

/-- The consumer's acquire load of `m_head` returns `head`, the `j`-th store. -/
def consumerLoad (s : Spsc T) (j : Nat) (head : SizeT) : Option (Spsc T) :=
  match s.consumer with
  | .popLoadHead tail =>
    if tail = head then some { s with headSeen := j, consumer := .popReturn none }
    else some { s with headSeen := j, consumer := .popCopy tail }
  | .emptyLoadHead tail => some { s with headSeen := j, consumer := .emptyReturn (tail = head) }
  | _ => none

def consumerRead (s : Spsc T) (tail : SizeT) (out : T) : Spsc T :=
  { s with consumer := .popStore tail out }

def step (s : Spsc T) : SpscAct T → Option (Spsc T)
  | .callPush value =>
    match s.producer with
    | .idle => some { s with producer := if !s.initialized then .pushReturn false else .pushLoadHead value }
    | _     => none
  | .callFull =>
    match s.producer with
    | .idle => some { s with producer := if !s.initialized then .fullReturn false else .fullLoadHead }
    | _     => none
  | .producer => s.producerStep
  | .producerLoads j =>
    match s.tail.stores[j]? with
    | some tail => if s.tailSeen ≤ j then s.producerLoad j tail else none
    | none      => none
  | .callPop =>
    match s.consumer with
    | .idle => some { s with consumer := if !s.initialized then .popReturn none else .popLoadTail }
    | _     => none
  | .callEmpty =>
    match s.consumer with
    | .idle => some { s with consumer := if !s.initialized then .emptyReturn true else .emptyLoadTail }
    | _     => none
  | .consumer => s.consumerStep
  | .consumerLoads j =>
    match s.head.stores[j]? with
    | some head => if s.headSeen ≤ j then s.consumerLoad j head else none
    | none      => none
  | .consumerReads k =>
    match s.consumer with
    | .popCopy tail =>
      match (s.slots tail.toNat)[k]? with
      | some w => if Readable (s.slots tail.toNat) s.headSeen k then some (s.consumerRead tail w.value) else none
      | none   => none
    | _ => none

/-- One producer and one consumer, in every interleaving, on the buffer `rb`. -/
def machine [Inhabited T] (rb : SpScRingBuffer T) : Machine (Spsc T) (SpscAct T) where
  init := init rb
  step := step

end Spsc
end ThreadMessaging
