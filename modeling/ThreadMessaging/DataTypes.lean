import Mathlib.Data.Nat.Notation
/-!
# The payloads and the commands (`dataTypes.hpp`)

Times are `steady_clock` ticks, nanoseconds in an `Int`; `double` results are the rationals they stand for (every value
the program computes is an `int` times 1.5).  An `int` is an `Int32`: where one overflows, which is undefined in C++, it
wraps here.  `FinalResult`, which no thread builds, is left out.
-/
namespace ThreadMessaging

/-- `std::chrono::steady_clock::time_point`, in ticks. -/
abbrev TimePoint := Int

structure FileEvent where
  fileName : String
  fileSize : BitVec 64
  sendTime : TimePoint := 0
  deriving DecidableEq, Repr

structure AppEvent where
  appName          : String
  eventDescription : String
  originalFile     : FileEvent
  deriving DecidableEq, Repr

structure ProcessedData where
  dataId           : String
  processingResult : Int32
  originalAppEvent : AppEvent
  deriving DecidableEq, Repr

structure TransformedData where
  transformationType : String
  value              : Rat
  originalData       : ProcessedData
  deriving DecidableEq, Repr

structure MirrorEvent where
  counter : Int32
  message : String
  deriving DecidableEq, Repr

structure DirectEvent where
  counter : Int32
  deriving DecidableEq, Repr

inductive CommandType
  | stopObserving
  | startObserving
  | stressMode
  | setNormalMode
  deriving DecidableEq, Repr

/-- A command for the observer; the duration is `std::chrono::seconds`. -/
structure ObserverCommand where
  type        : CommandType
  durationSec : Int := 0
  deriving DecidableEq, Repr

instance : Inhabited ObserverCommand := ⟨{ type := .stopObserving }⟩

end ThreadMessaging
