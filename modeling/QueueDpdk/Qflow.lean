import Mathlib.Algebra.Group.Int.Defs
import Mathlib.Algebra.Group.Nat.Defs
import Mathlib.Data.Int.Basic

/-!
# Queue-selection options (`common/qflow.h`)

The option record both programs read, and the constants of their polling loops.
-/

set_option autoImplicit false

namespace QueueDpdk

/-- `enum qflow_mode`. -/
inductive QflowMode where
  | single
  | partitioned
  | shared
  deriving DecidableEq, Repr

/-- `struct qflow_opts`. -/
structure QflowOpts where
  aggressive : Bool
  penalty : Bool
  penaltyTurns : UInt32
  latency : Bool
  latencyQueue : Int
  latencyPeriod : Int
  mode : QflowMode
  deriving DecidableEq, Repr

def QFLOW_MAX_CONSECUTIVE_POLLS : Nat := 100
def QFLOW_DEFAULT_PENALTY : UInt32 := 5
def QFLOW_DEFAULT_LATENCY_PERIOD : Int := 4

/-- `MAX_PKT_BURST` of both programs. -/
def MAX_PKT_BURST : Nat := 32

/-- `qflow_opts_init`. -/
def qflowOptsInit : QflowOpts :=
  ⟨false, false, QFLOW_DEFAULT_PENALTY, false, 0, QFLOW_DEFAULT_LATENCY_PERIOD, .single⟩

/-- `penalty = qflow.penalty ? qflow.penalty_turns : 0`, as both `main` functions derive it. -/
def QflowOpts.penaltyKnob (o : QflowOpts) : UInt32 := if o.penalty then o.penaltyTurns else 0

/-- Conversion of an `int` to `unsigned`. -/
def toUnsigned (x : Int) : Int := x % 2 ^ 32

/-- Conversion of a 32-bit pattern to `int`. -/
def toSigned (x : Int) : Int := Int.bmod x (2 ^ 32)

/-- `qflow_check`: negative for options that the queues and lcores cannot serve. -/
def qflowCheck (o : QflowOpts) (queues nbLcores : UInt32) : Int :=
  if o.mode = .single ∧ 1 < nbLcores then -1
  else if o.mode = .partitioned ∧ queues < nbLcores then -1
  else if o.latency = true ∧ (queues.toNat : Int) ≤ toUnsigned o.latencyQueue then -1
  else 0

/-- What it admits for Partitioned mode: at least one queue for each lcore. -/
theorem qflowCheck_partitioned {o : QflowOpts} {queues nbLcores : UInt32}
    (h : 0 ≤ qflowCheck o queues nbLcores) (hm : o.mode = .partitioned) : nbLcores ≤ queues := by
  by_contra hlt
  have hlt' : queues < nbLcores := UInt32.not_le.mp hlt
  simp [qflowCheck, hm, hlt'] at h

/-- What it admits for Latency: the queue exists. -/
theorem qflowCheck_latency {o : QflowOpts} {queues nbLcores : UInt32}
    (h : 0 ≤ qflowCheck o queues nbLcores) (hl : o.latency = true) :
    toUnsigned o.latencyQueue < queues.toNat := by
  unfold qflowCheck at h
  split_ifs at h with hs hp hq
  · exact absurd h (by decide)
  · exact absurd h (by decide)
  · exact absurd h (by decide)
  · exact Int.not_le.mp fun hle => hq ⟨hl, hle⟩

@[simp] theorem toUnsigned_toSigned (x : Int) : toUnsigned (toSigned x) = toUnsigned x :=
  Int.bmod_emod

theorem toUnsigned_of_nonneg {x : Int} (h0 : 0 ≤ x) (h1 : x < 2 ^ 32) : toUnsigned x = x :=
  Int.emod_eq_of_lt h0 h1

theorem toSigned_of_nonneg {x : Int} (h0 : 0 ≤ x) (h1 : x < 2 ^ 31) : toSigned x = x := by
  unfold toSigned
  rw [Int.bmod_eq_of_le] <;> omega

end QueueDpdk
