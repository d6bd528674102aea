import QueueDpdk.Lib.Strtoul
import QueueDpdk.Qflow

/-!
# Values of options (`common/qflow.h`, `nf-chain/src/main.c`, `mica/main.c`)

Arguments are lists of characters without the terminator.

* `qflowParseUint`, `qflowParseLongOpt` — the options both programs share.
* `parseQueues`, `parseQueuesArg`, `parseDescriptors` — `-q` and `-d`, which they read the same way.
-/

set_option autoImplicit false

namespace QueueDpdk.Options

open Lib

def QFLOW_OPT_POLICY : String := "policy"
def QFLOW_OPT_PENALTY : String := "penalty"
def QFLOW_OPT_LATENCY_QUEUE : String := "latency-queue"
def QFLOW_OPT_LATENCY_PERIOD : String := "latency-period"
def QFLOW_OPT_MULTICORE : String := "multicore"

/-- `qflow_parse_uint`, with the number it writes. -/
def qflowParseUint (arg : List Char) : Int × ℕ :=
  let parsed := strtoul arg 10
  (if arg = [] ∨ parsed.rest ≠ [] then -1 else 0, parsed.value)

/-- `qflow_parse_long_opt`. -/
def qflowParseLongOpt (o : QflowOpts) (name : String) (arg : List Char) : QflowOpts × Int :=
  if name = QFLOW_OPT_POLICY then
    let o := { o with aggressive := false, penalty := false }
    if arg = "baseline".toList then (o, 1)
    else if arg = "aggressive".toList then ({ o with aggressive := true }, 1)
    else if arg = "penalty".toList then ({ o with penalty := true }, 1)
    else if arg = "aggressive+penalty".toList then
      ({ o with aggressive := true, penalty := true }, 1)
    else (o, -1)
  else if name = QFLOW_OPT_PENALTY then
    let (ret, v) := qflowParseUint arg
    if ret < 0 ∨ v = 0 then (o, -1)
    else ({ o with penaltyTurns := UInt32.ofNat v }, 1)
  else if name = QFLOW_OPT_LATENCY_QUEUE then
    let (ret, v) := qflowParseUint arg
    if ret < 0 then (o, -1)
    else ({ o with latency := true, latencyQueue := toSigned v }, 1)
  else if name = QFLOW_OPT_LATENCY_PERIOD then
    let (ret, v) := qflowParseUint arg
    if ret < 0 ∨ v = 0 then (o, -1)
    else ({ o with latencyPeriod := toSigned v }, 1)
  else if name = QFLOW_OPT_MULTICORE then
    if arg = "partitioned".toList then ({ o with mode := .partitioned }, 1)
    else if arg = "shared".toList then ({ o with mode := .shared }, 1)
    else (o, -1)
  else (o, 0)

/-- `parse_queues` of both programs. -/
def parseQueues (qArg : List Char) : UInt32 :=
  let parsed := strtoul qArg 10
  if qArg = [] ∨ parsed.rest ≠ [] then 0
  else if parsed.value = 0 then 0
  else UInt32.ofNat parsed.value

/-- The case `'q'` of `parse_args` of both programs; `none` for a return of -1. -/
def parseQueuesArg (optarg : List Char) : Option UInt16 :=
  let queues := (parseQueues optarg).toUInt16
  if queues = 0 then none else some queues

/-- The case `'d'`: a power of two, at least 64. -/
def parseDescriptors (optarg : List Char) : Option UInt16 :=
  let nbRxd := (parseQueues optarg).toUInt16
  if nbRxd < 64 ∨ nbRxd &&& (nbRxd - 1) ≠ 0 then none else some nbRxd

/-! ## The numeric options -/

section Numeric

variable (o : QflowOpts) (arg : List Char)

theorem qflowParseLongOpt_penalty : qflowParseLongOpt o QFLOW_OPT_PENALTY arg =
    if (qflowParseUint arg).1 < 0 ∨ (qflowParseUint arg).2 = 0 then (o, -1)
    else ({ o with penaltyTurns := UInt32.ofNat (qflowParseUint arg).2 }, 1) := by
  unfold qflowParseLongOpt
  rw [if_neg (by decide), if_pos rfl]

theorem qflowParseLongOpt_latencyQueue : qflowParseLongOpt o QFLOW_OPT_LATENCY_QUEUE arg =
    if (qflowParseUint arg).1 < 0 then (o, -1)
    else ({ o with latency := true, latencyQueue := toSigned (qflowParseUint arg).2 }, 1) := by
  unfold qflowParseLongOpt
  rw [if_neg (by decide), if_neg (by decide), if_pos rfl]

theorem qflowParseLongOpt_latencyPeriod : qflowParseLongOpt o QFLOW_OPT_LATENCY_PERIOD arg =
    if (qflowParseUint arg).1 < 0 ∨ (qflowParseUint arg).2 = 0 then (o, -1)
    else ({ o with latencyPeriod := toSigned (qflowParseUint arg).2 }, 1) := by
  unfold qflowParseLongOpt
  rw [if_neg (by decide), if_neg (by decide), if_neg (by decide), if_pos rfl]

end Numeric

/-! ## What is accepted -/

section Accepted

variable {arg blanks sign digits : List Char}

/-- The check both parsers make on the end of the string leaves the numerals. -/
theorem numeral_cases (arg : List Char) :
    (∃ blanks sign digits, IsNumeral arg blanks sign digits ∧
      ¬(arg = [] ∨ (strtoul arg 10).rest ≠ []) ∧ (strtoul arg 10).value = numeral sign digits) ∨
    ((∀ blanks sign digits, ¬IsNumeral arg blanks sign digits) ∧
      (arg = [] ∨ (strtoul arg 10).rest ≠ [])) := by
  by_cases h : arg = [] ∨ (strtoul arg 10).rest ≠ []
  · refine Or.inr ⟨fun blanks sign digits hn => ?_, h⟩
    rcases h with rfl | hrest
    · exact hn.ne_nil (List.append_eq_nil_iff.mp (List.append_eq_nil_iff.mp hn.eq.symm).2).2
    · exact hrest (by rw [strtoul_numeral hn])
  · obtain ⟨hne, hrest⟩ := not_or.mp h
    obtain ⟨blanks, sign, digits, hn⟩ := isNumeral_of_strtoul hne (not_not.mp hrest)
    exact Or.inl ⟨blanks, sign, digits, hn, h, by rw [strtoul_numeral hn]⟩

/-- `qflow_parse_uint` accepts the numerals. -/
theorem qflowParseUint_cases (arg : List Char) :
    (∃ blanks sign digits, IsNumeral arg blanks sign digits ∧
      qflowParseUint arg = (0, numeral sign digits)) ∨
    ((∀ blanks sign digits, ¬IsNumeral arg blanks sign digits) ∧ (qflowParseUint arg).1 = -1) := by
  unfold qflowParseUint
  dsimp only
  rcases numeral_cases arg with ⟨blanks, sign, digits, hn, hok, hv⟩ | ⟨hn, hbad⟩
  · exact Or.inl ⟨blanks, sign, digits, hn, by rw [if_neg hok, hv]⟩
  · exact Or.inr ⟨hn, if_pos hbad⟩

/-- `parse_queues` reads the same numbers, and narrows them. -/
theorem parseQueues_cases (arg : List Char) :
    (∃ blanks sign digits, IsNumeral arg blanks sign digits ∧
      parseQueues arg = UInt32.ofNat (numeral sign digits)) ∨
    ((∀ blanks sign digits, ¬IsNumeral arg blanks sign digits) ∧ parseQueues arg = 0) := by
  unfold parseQueues
  dsimp only
  rcases numeral_cases arg with ⟨blanks, sign, digits, hn, hok, hv⟩ | ⟨hn, hbad⟩
  · refine Or.inl ⟨blanks, sign, digits, hn, ?_⟩
    rw [if_neg hok, hv]
    split
    · rename_i hzero
      rw [hzero]
      rfl
    · rfl
  · exact Or.inr ⟨hn, if_pos hbad⟩

end Accepted

end QueueDpdk.Options
