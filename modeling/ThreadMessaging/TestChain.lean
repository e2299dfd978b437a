import Mathlib.Data.Finset.Insert
import Mathlib.Data.Fintype.Defs
/-!
# The test chain: its five tasks and how `initTestChain` links them

Every `Sender` is made by `makeSender(false)`: a pointer to the receiver's queue, and no callback.
-/
namespace ThreadMessaging

inductive ChainTask
  | observerIncoming
  | appObserver
  | processing
  | transformation
  | result
  deriving DecidableEq, Repr

namespace ChainTask

instance : Fintype ChainTask where
  elems := {.observerIncoming, .appObserver, .processing, .transformation, .result}
  complete t := by cases t <;> decide

/-- `m_next`. -/
def next : ChainTask → Option ChainTask
  | .observerIncoming => some .appObserver
  | .appObserver      => some .processing
  | .processing       => some .transformation
  | .transformation   => some .result
  | .result           => none

/-- `m_directToProcessing`. -/
def directToProcessing : ChainTask → Option ChainTask
  | .observerIncoming => some .processing
  | _                 => none

/-- `m_mirror`. -/
def mirror : ChainTask → Option ChainTask
  | .appObserver => some .observerIncoming
  | _            => none

/-- The receivers whose queues a task holds Senders to. -/
def targets (t : ChainTask) : List ChainTask :=
  t.next.toList ++ t.directToProcessing.toList ++ t.mirror.toList

/-- In the order `initTestChain` adds them. -/
def all : List ChainTask := [.observerIncoming, .appObserver, .processing, .transformation, .result]

end ChainTask
end ThreadMessaging
