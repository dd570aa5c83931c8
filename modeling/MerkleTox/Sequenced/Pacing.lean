import MerkleTox.Sequenced.Outgoing

/-! # Round-trip estimation, congestion control and scheduling

What decides *when* a fragment is sent. The congestion controllers are any type
with the operations of the trait; the scheduler is the deficit round robin over
five priority levels.
-/

namespace MerkleTox.Sequenced

structure RttEstimator where
  srtt : Duration
  rttvar : Duration
  rto : Duration

namespace RttEstimator

def new : RttEstimator := ⟨fromMillis 200, fromMillis 100, fromMillis 1000⟩

def minRto : Duration := fromMillis 200
def maxRto : Duration := fromMillis 5000

def update [FloatOps] (rtt : RttEstimator) (sample : Duration) : RttEstimator :=
  let diff := max sample rtt.srtt - min sample rtt.srtt
  let rttvar := FloatOps.mulF32 rtt.rttvar (3 / 4) + FloatOps.mulF32 diff (1 / 4)
  let srtt := FloatOps.mulF32 rtt.srtt (7 / 8) + FloatOps.mulF32 sample (1 / 8)
  ⟨srtt, rttvar, max minRto (min maxRto (srtt + rttvar * 4))⟩

def rtoWithBackoff (rtt : RttEstimator) (retries : Nat) : Duration := rtt.rto * 2 ^ min retries 6

end RttEstimator

structure DeliverySample where
  bytesDelivered : Nat
  duration : Duration
  now : Instant
  appLimited : Bool

/-- The `CongestionControl` trait. `pacingGap` is the pacing rate with the
division that the session applies to it:
`Duration::from_secs_f32((len as f32 / pacing_rate).min(1.0))`, or zero. -/
class CongestionControl (C : Type) where
  onAck : C → (rtt : Duration) → Option DeliverySample → (bytesAcked inFlight : Nat) →
    (now : Instant) → C
  onNack : C → (now : Instant) → C
  onTimeout : C → (now : Instant) → C
  cwnd : C → Nat
  pacingGap : C → (bytes : Nat) → Duration
  onFragmentSent : C → (bytes : Nat) → (now : Instant) → C

/-- The deficit round robin scheduler; an entry per priority level. -/
structure PriorityScheduler where
  deficits : Fin 5 → Int
  quantums : Fin 5 → Int
  activeQueues : Fin 5 → List MessageId
  activeLevels : List (Fin 5)
  needsQuantum : Fin 5 → Bool

namespace PriorityScheduler

def defaultQuantums : Fin 5 → Int
  | 0 => 4096 | 1 => 2048 | 2 => 1500 | 3 => 1024 | 4 => 512

def new : PriorityScheduler where
  deficits := fun _ => 0
  quantums := defaultQuantums
  activeQueues := fun _ => []
  activeLevels := []
  needsQuantum := fun _ => true

/-- `values[level] = value`. -/
def assign {α : Type} (values : Fin 5 → α) (level : Fin 5) (value : α) : Fin 5 → α :=
  fun other => if other = level then value else values other

def updateMessage (scheduler : PriorityScheduler) (messageId : MessageId) (level : Fin 5) :
    PriorityScheduler :=
  let activated :=
    if scheduler.activeLevels.contains level then scheduler
    else { scheduler with
      -- the two highest levels pre-empt the others
      activeLevels := if level ≤ 1 then level :: scheduler.activeLevels
        else scheduler.activeLevels ++ [level]
      needsQuantum := assign scheduler.needsQuantum level true }
  { activated with activeQueues := fun other =>
      let queue := activated.activeQueues other
      if other ≠ level then queue.filter (· ≠ messageId)
      else if queue.contains messageId then queue else queue ++ [messageId] }

def removeMessage (scheduler : PriorityScheduler) (messageId : MessageId) : PriorityScheduler :=
  let queues := fun level => (scheduler.activeQueues level).filter (· ≠ messageId)
  { scheduler with
    activeQueues := queues
    deficits := fun level => if (queues level).isEmpty then 0 else scheduler.deficits level
    activeLevels := scheduler.activeLevels.filter fun level => !(queues level).isEmpty
    needsQuantum := fun level => (queues level).isEmpty || scheduler.needsQuantum level }

/-- Move a level to the back of the cycle, with a fresh quantum on its next visit. -/
def requeue (scheduler : PriorityScheduler) (level : Fin 5) : PriorityScheduler :=
  { scheduler with
    activeLevels := scheduler.activeLevels ++ [level]
    needsQuantum := assign scheduler.needsQuantum level true }

def rotate (scheduler : PriorityScheduler) (level : Fin 5) : PriorityScheduler :=
  { scheduler with
    activeQueues := assign scheduler.activeQueues level ((scheduler.activeQueues level).rotate 1) }

/-- `size as i32`, which keeps the lower 32 bits. -/
def asI32 (size : Nat) : Int := (size : Int).bmod (2 ^ 32)

/-- The loop over the messages of one level. -/
def serveLevel (isReady : MessageId → Option Nat) (level : Fin 5) :
    Nat → PriorityScheduler → Option MessageId × PriorityScheduler
  | 0, scheduler => (none, scheduler.requeue level)
  | rounds + 1, scheduler =>
      match scheduler.activeQueues level with
      | [] => (none, scheduler)
      | messageId :: _ =>
          match isReady messageId with
          | none => serveLevel isReady level rounds (scheduler.rotate level)
          | some size =>
              if asI32 size ≤ scheduler.deficits level then
                let deficit := scheduler.deficits level - asI32 size
                let served :=
                  { scheduler with deficits := assign scheduler.deficits level deficit }.rotate level
                if 0 < deficit then
                  (some messageId, { served with activeLevels := level :: served.activeLevels })
                else (some messageId, served.requeue level)
              else (none, scheduler.requeue level)

/-- Picks the message whose fragment goes next. -/
def nextMessage (scheduler : PriorityScheduler) (isReady : MessageId → Option Nat) :
    Option MessageId × PriorityScheduler :=
  go scheduler.activeLevels.length scheduler
where
  go : Nat → PriorityScheduler → Option MessageId × PriorityScheduler
  | 0, scheduler => (none, scheduler)
  | rounds + 1, scheduler =>
      match scheduler.activeLevels with
      | [] => (none, scheduler)
      | level :: levels =>
          let scheduler := { scheduler with activeLevels := levels }
          if (scheduler.activeQueues level).isEmpty then
            go rounds { scheduler with
              deficits := assign scheduler.deficits level 0
              needsQuantum := assign scheduler.needsQuantum level true }
          else
            let charged :=
              if scheduler.needsQuantum level then
                let deficit := min (scheduler.deficits level + scheduler.quantums level) 16384
                { scheduler with
                  deficits := assign scheduler.deficits level deficit
                  needsQuantum := assign scheduler.needsQuantum level false }
              else scheduler
            match serveLevel isReady level (charged.activeQueues level).length charged with
            | (some messageId, served) => (some messageId, served)
            | (none, served) => go rounds served

end PriorityScheduler

/-! ### A concrete controller

The session is generic in its controller. For runs on concrete inputs we use one
with a constant window and no pacing, and exact arithmetic in place of `f32`. -/

structure FixedWindow where
  window : Nat
  deriving DecidableEq

instance : CongestionControl FixedWindow where
  onAck control _ _ _ _ _ := control
  onNack control _ := control
  onTimeout control _ := control
  cwnd control := control.window
  pacingGap _ _ := 0
  onFragmentSent control _ _ := control

@[reducible]
def exactFloatOps : FloatOps where
  mulF32 duration factor := duration * factor.num.toNat / factor.den
  rateGt first second := second.bytes * first.duration < first.bytes * second.duration
  cwndThreshold last := max 1 (last / 10)

end MerkleTox.Sequenced
