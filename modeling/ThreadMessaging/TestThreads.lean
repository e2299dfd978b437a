import Mathlib.Data.Rat.Defs
import Mathlib.Data.Int.DivMod
import Mathlib.Algebra.Group.Nat.Defs
import ThreadMessaging.Chrono
import ThreadMessaging.TestChain
import ThreadMessaging.DataTypes
/-!
# The bodies of the test threads (`testThreads.hpp`)

What an iteration of each thread's loop does with what it was given: the observer with its command and the clock, the
other four with the message they popped.  A `MessageWrapper<T>` is a `Payload` of one of its kinds, and the
`dynamic_pointer_cast` a match on it: `none` is a failed cast.  The Sends of an iteration are listed in order, each with
the receiver that `initTestChain` linked the Sender to.  What is only printed is left out.
-/
namespace ThreadMessaging

inductive Payload
  | fileEvent (e : FileEvent)
  | appEvent (e : AppEvent)
  | processedData (d : ProcessedData)
  | transformedData (d : TransformedData)
  | mirrorEvent (e : MirrorEvent)
  | directEvent (e : DirectEvent)
  deriving DecidableEq, Repr

namespace Payload

/-- The FileEvents a message carries, nested or not. -/
def carried : Payload → List FileEvent
  | .fileEvent e       => [e]
  | .appEvent e        => [e.originalFile]
  | .processedData d   => [d.originalAppEvent.originalFile]
  | .transformedData d => [d.originalData.originalAppEvent.originalFile]
  | .mirrorEvent _     => []
  | .directEvent _     => []

end Payload

/-! ## The observer -/

inductive ObserverMode
  | normal
  | stress
  deriving DecidableEq, Repr

/-- The observer's members; the interval is in milliseconds. -/
structure Observer where
  pauseUntil  : TimePoint := 0
  stressUntil : TimePoint := 0
  mode        : ObserverMode := .normal
  interval    : Int := 2000
  deriving DecidableEq, Repr

def ticks (t : Int) : TimePoint := count64 t

/-- `now + seconds`: the seconds are converted to ticks first. -/
def addSeconds (now : TimePoint) (sec : Int) : TimePoint := ticks (now + ticks (sec * 1000000000))

namespace Observer

def applyCommand (o : Observer) (cmd : ObserverCommand) (now : TimePoint) : Observer :=
  match cmd.type with
  | .stopObserving  => { o with pauseUntil := addSeconds now cmd.durationSec }
  | .startObserving => { o with pauseUntil := addSeconds now cmd.durationSec }
  | .stressMode     => { o with mode := .stress, interval := 10, stressUntil := addSeconds now 30 }
  | .setNormalMode  => { o with mode := .normal, interval := 500 }

def autoExit (o : Observer) (now : TimePoint) : Observer :=
  if o.mode = .stress ∧ o.stressUntil ≤ now then { o with mode := .normal, interval := 2000 } else o

def paused (o : Observer) (now : TimePoint) : Bool := now < o.pauseUntil

end Observer

/-- The observer's event number `count`, which `1024ULL * count` converts to 64 bits without a sign. -/
def fileEvent (count : Int32) (now : TimePoint) : FileEvent where
  fileName := "file_" ++ toString count ++ ".txt"
  fileSize := 1024 * BitVec.ofInt 64 count.toInt
  sendTime := now

/-- `m->Send(payload)`, where the optional Sender has a value. -/
def sendTo (m : Option ChainTask) (payload : Payload) : List (ChainTask × Payload) :=
  m.toList.map (fun r => (r, payload))

/-- The observer's Sends for event number `count`. -/
def observerSends (count : Int32) (now : TimePoint) : List (ChainTask × Payload) :=
  sendTo ChainTask.observerIncoming.next (.fileEvent (fileEvent count now)) ++
    sendTo ChainTask.observerIncoming.directToProcessing (.directEvent { counter := count })

/-- **What event number `k` is**, as long as an `int` counts so far. -/
theorem fileEvent_eq {k : Nat} (hk : k < 2 ^ 31) (now : TimePoint) : fileEvent (.ofNat k) now =
    { fileName := "file_" ++ toString k ++ ".txt", fileSize := BitVec.ofNat 64 (1024 * k), sendTime := now } := by
  have hint : (Int32.ofNat k).toInt = k := Int32.toInt_ofNat_of_lt hk
  have hname : toString (Int32.ofNat k) = toString k := by
    show toString (Int32.ofNat k).toInt = toString k
    rw [hint]; rfl
  have hsize : 1024 * BitVec.ofInt 64 (Int32.ofNat k).toInt = BitVec.ofNat 64 (1024 * k) := by
    rw [hint, BitVec.ofInt_natCast, BitVec.ofNat_mul]; rfl
  unfold fileEvent
  rw [hname, hsize]

/-- **The two Sends of event number `k`**. -/
theorem observerSends_eq {k : Nat} (hk : k < 2 ^ 31) (now : TimePoint) : observerSends (.ofNat k) now =
    [(.appObserver, .fileEvent { fileName := "file_" ++ toString k ++ ".txt", fileSize := BitVec.ofNat 64 (1024 * k)
                                 sendTime := now }),
     (.processing, .directEvent { counter := .ofNat k })] := by
  unfold observerSends
  rw [fileEvent_eq hk]; rfl

/-! ## The other four -/

/-- `mirrorCounter` is the number of the last MirrorEvent. -/
def appObserverHandles (mirrorCounter : Int32) : Payload → Option (List (ChainTask × Payload))
  | .fileEvent fe =>
    some (sendTo ChainTask.appObserver.mirror (.mirrorEvent { counter := mirrorCounter + 1, message := fe.fileName }) ++
      sendTo ChainTask.appObserver.next
        (.appEvent { appName := "App1", eventDescription := fe.fileName, originalFile := fe }))
  | _ => none

def processingHandles : Payload → Option (List (ChainTask × Payload))
  | .appEvent ae =>
    some (sendTo ChainTask.processing.next (.processedData
      { dataId := "DATA-" ++ toString ae.originalFile.fileSize.toNat, processingResult := 42, originalAppEvent := ae }))
  | _ => none

def transformationHandles : Payload → Option (List (ChainTask × Payload))
  | .processedData pd =>
    some (sendTo ChainTask.transformation.next (.transformedData
      { transformationType := "MathTransform", value := pd.processingResult.toInt * (3 / 2), originalData := pd }))
  | _ => none

def resultHandles : Payload → Option (List (ChainTask × Payload))
  | .transformedData _ => some []
  | _                  => none

/-- What a task does with the message it popped: its Sends, or nothing after a failed cast.  The observer pops none. -/
def handles (mirrorCounter : Int32) : ChainTask → Payload → Option (List (ChainTask × Payload))
  | .observerIncoming => fun _ => none
  | .appObserver      => appObserverHandles mirrorCounter
  | .processing       => processingHandles
  | .transformation   => transformationHandles
  | .result           => resultHandles

/-! ## Who takes what -/

/-- The kinds of messages a task's queue is sent. -/
def accepts : ChainTask → Payload → Bool
  | .observerIncoming, .mirrorEvent _   => true
  | .appObserver, .fileEvent _          => true
  | .processing, .appEvent _            => true
  | .processing, .directEvent _         => true
  | .transformation, .processedData _   => true
  | .result, .transformedData _         => true
  | _, _                                => false

/-- **A Send that fits**: the receiver accepts the message, and what carries a FileEvent goes to the next task. -/
def Fits (t : ChainTask) (e : ChainTask × Payload) : Prop :=
  accepts e.1 e.2 = true ∧ (e.2.carried = [] ∨ t.next = some e.1)

theorem mem_sendTo {m : Option ChainTask} {payload : Payload} {e : ChainTask × Payload} :
    e ∈ sendTo m payload ↔ ∃ r, m = some r ∧ e = (r, payload) := by
  simp only [sendTo, List.mem_map, Option.mem_toList, eq_comm]

theorem fits_of_carried {t : ChainTask} {m : Option ChainTask} {p : Payload} (hc : p.carried = [])
    (hm : ∀ r, m = some r → accepts r p = true) : ∀ e ∈ sendTo m p, Fits t e := by
  intro e he
  obtain ⟨r, hr, rfl⟩ := mem_sendTo.1 he
  exact ⟨hm r hr, .inl hc⟩

theorem fits_next {t : ChainTask} {p : Payload} (hm : ∀ r, t.next = some r → accepts r p = true) :
    ∀ e ∈ sendTo t.next p, Fits t e := by
  intro e he
  obtain ⟨r, hr, rfl⟩ := mem_sendTo.1 he
  exact ⟨hm r hr, .inr hr⟩

theorem observerSends_fits (count : Int32) (now : TimePoint) :
    ∀ e ∈ observerSends count now, Fits .observerIncoming e := by
  intro e he
  rcases List.mem_append.1 he with he | he
  · exact fits_next (fun r hr => by cases hr; rfl) e he
  · exact fits_of_carried rfl (fun r hr => by cases hr; rfl) e he

theorem handles_fits {mc : Int32} {t : ChainTask} {p : Payload} {sends : List (ChainTask × Payload)}
    (h : handles mc t p = some sends) : ∀ e ∈ sends, Fits t e := by
  intro e he
  cases t with
  | observerIncoming => cases h
  | appObserver =>
    cases p with
    | fileEvent fe =>
      obtain rfl := Option.some.inj h
      rcases List.mem_append.1 he with he | he
      · exact fits_of_carried rfl (fun r hr => by cases hr; rfl) e he
      · exact fits_next (fun r hr => by cases hr; rfl) e he
    | _ => cases h
  | processing =>
    cases p with
    | appEvent ae =>
      obtain rfl := Option.some.inj h
      exact fits_next (fun r hr => by cases hr; rfl) e he
    | _ => cases h
  | transformation =>
    cases p with
    | processedData pd =>
      obtain rfl := Option.some.inj h
      exact fits_next (fun r hr => by cases hr; rfl) e he
    | _ => cases h
  | result =>
    cases p with
    | transformedData td =>
      obtain rfl := Option.some.inj h
      cases he
    | _ => cases h

/-- **A task passes on the FileEvents of the message it handles**, all of them, unchanged. -/
theorem carried_handles {mc : Int32} {t : ChainTask} {p : Payload} {sends : List (ChainTask × Payload)}
    (h : handles mc t p = some sends) (ht : t ≠ .result) :
    sends.flatMap (fun e => e.2.carried) = p.carried := by
  cases t with
  | observerIncoming => cases h
  | appObserver => cases p <;> first | (obtain rfl := Option.some.inj h; rfl) | cases h
  | processing => cases p <;> first | (obtain rfl := Option.some.inj h; rfl) | cases h
  | transformation => cases p <;> first | (obtain rfl := Option.some.inj h; rfl) | cases h
  | result => exact absurd rfl ht

theorem handles_result {mc : Int32} {p : Payload} {sends : List (ChainTask × Payload)}
    (h : handles mc .result p = some sends) : sends = [] := by
  cases p <;> first | exact (Option.some.inj h).symm | cases h

/-- **Of what a task's queue is sent, only the DirectEvents of the processing task fail the cast.** -/
theorem handles_eq_none {mc : Int32} {t : ChainTask} {p : Payload} (ht : t ≠ .observerIncoming)
    (hacc : accepts t p = true) (h : handles mc t p = none) : t = .processing ∧ ∃ e, p = .directEvent e := by
  cases t <;> cases p <;> first
    | exact absurd rfl ht
    | exact ⟨rfl, _, rfl⟩
    | (cases hacc; done)
    | cases h

end ThreadMessaging
