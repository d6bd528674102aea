import QueueDpdk.Lib.Attempts
import QueueDpdk.Options.LongOpt

/-!
# `parse_args` of mica and of nf-chain

`getopt_long` has split the command line into options; each option is one step of the loop, which
ends with the first option it does not accept.

* `Mica.parseArgs`, `parseArgs` — the two loops.
* `parsePortmask`, `parseConfig` and the other parsers of nf-chain's own options.
* `parseArgs_queues`, `parseArgs_descriptors` — the last `-q` and the last `-d` decide.
-/

set_option autoImplicit false

namespace QueueDpdk.Options

open Lib

/-- What `getopt_long` returns. `--enable-jumbo` looks for `--max-pkt-len` in the next argument by
    a call of its own. -/
inductive Opt where
  | d (optarg : List Char)
  | q (optarg : List Char)
  | v
  | p (optarg : List Char)
  | promiscuous
  | long (name : String) (optarg : List Char)
  | enableJumbo (maxPktLen : Option (List Char))
  | other
  deriving DecidableEq, Repr

def Opt.isQueues : Opt → Bool
  | .q _ => true
  | _ => false

def Opt.isDescriptors : Opt → Bool
  | .d _ => true
  | _ => false

def RTE_TEST_RX_DESC_DEFAULT : UInt16 := 1024

/-- The variables both programs set. -/
structure Args where
  nbRxd : UInt16
  queues : UInt16
  verbose : Bool
  qflow : QflowOpts
  deriving DecidableEq, Repr

/-- Their values before the loop. -/
def Args.init : Args := ⟨RTE_TEST_RX_DESC_DEFAULT, 2, false, qflowOptsInit⟩

/-! ## mica -/

namespace Mica

/-- An option of mica. -/
def parseArg (a : Args) : Opt → Option Args
  | .d optarg => (parseDescriptors optarg).map fun n => { a with nbRxd := n }
  | .q optarg => (parseQueuesArg optarg).map fun n => { a with queues := n }
  | .v => some { a with verbose := true }
  | .long name optarg =>
    let (qflow, ret) := qflowParseLongOpt a.qflow name optarg
    if 0 < ret then some { a with qflow := qflow } else none
  | _ => none

/-- `parse_args`. -/
def parseArgs (a : Args) (opts : List Opt) : Option Args := opts.foldlM parseArg a

end Mica

/-! ## nf-chain -/

/-- `struct lcore_params`. -/
structure LcoreParams where
  portId : UInt16
  queueId : UInt8
  lcoreId : UInt8
  deriving DecidableEq, Repr

def lcoreParamsArrayDefault : List LcoreParams :=
  [⟨0, 0, 2⟩, ⟨0, 1, 2⟩, ⟨0, 2, 2⟩, ⟨1, 0, 2⟩, ⟨1, 1, 2⟩, ⟨1, 2, 2⟩, ⟨2, 0, 2⟩, ⟨3, 0, 3⟩,
    ⟨3, 1, 3⟩]

def MAX_LCORE_PARAMS : ℕ := 1024
def MAX_JUMBO_PKT_LEN : Int := 9600
def RTE_MAX_ETHPORTS : ℕ := 32

/-- `parse_portmask`, as the `uint32_t` it is stored in. -/
def parsePortmask (portmask : List Char) : UInt32 :=
  let parsed := strtoul portmask 16
  if portmask = [] ∨ parsed.rest ≠ [] then 0 else UInt32.ofNat parsed.value

/-- `parse_max_pkt_len`. -/
def parseMaxPktLen (pktlen : List Char) : Int :=
  let parsed := strtoul pktlen 10
  if pktlen = [] ∨ parsed.rest ≠ [] then -1
  else if parsed.value = 0 then -1
  else toSigned parsed.value

/-- The functions of DPDK that take an option apart: `rte_strsplit` gives the tokens it has found,
    `cmdline_parse_etheraddr` whether it takes the address. -/
structure OptionLib where
  rteStrsplit (string : List Char) (maxtokens : ℕ) (delim : Char) : List (List Char)
  cmdlineParseEtheraddr (addr : List Char) : Bool

/-- A field of an entry of `--config`: the number at its start, which must fit into a byte. -/
def configField (str : List Char) : Option UInt8 :=
  let parsed := strtoul str 0
  if parsed.range = true ∨ parsed.rest = str ∨ 255 < parsed.value then none
  else some (UInt8.ofNat parsed.value)

/-- The entry between two parentheses. -/
def configEntry (lib : OptionLib) (s : List Char) : Option LcoreParams :=
  if 256 ≤ s.length then none
  else match lib.rteStrsplit s 3 ',' with
    | [port, queue, lcore] => do
      let portId ← configField port
      let queueId ← configField queue
      let lcoreId ← configField lcore
      return ⟨portId.toUInt16, queueId, lcoreId⟩
    | _ => none

/-- The loop of `parse_config`: it looks for the next parenthesis, and is inside one after
    reading `entry`. -/
def parseConfigFrom (lib : OptionLib) :
    List Char → Option (List Char) → List LcoreParams → Option (List LcoreParams)
  | [], none, params => some params
  | [], some _, _ => none
  | c :: s, none, params =>
    if c = '(' then parseConfigFrom lib s (some []) params else parseConfigFrom lib s none params
  | c :: s, some entry, params =>
    if c = ')' then
      match configEntry lib entry with
      | none => none
      | some p =>
        if MAX_LCORE_PARAMS ≤ params.length then none
        else parseConfigFrom lib s none (params ++ [p])
    else parseConfigFrom lib s (some (entry ++ [c])) params

/-- `parse_config`. -/
def parseConfig (lib : OptionLib) (qArg : List Char) : Option (List LcoreParams) :=
  parseConfigFrom lib qArg none []

/-- `parse_eth_dest`. -/
def parseEthDest (lib : OptionLib) (optarg : List Char) : Bool :=
  let parsed := strtoul optarg 0
  !parsed.range && parsed.rest ≠ optarg &&
    match parsed.rest with
    | ',' :: addr => decide (parsed.value < RTE_MAX_ETHPORTS) && lib.cmdlineParseEtheraddr addr
    | _ => false

/-- The names `parse_acl_alg` knows. -/
def aclAlgNames : List String := ["scalar", "sse", "avx2", "neon", "altivec", "avx512x16",
  "avx512x32"]

/-- The variables of nf-chain. -/
structure NfArgs extends Args where
  enabledPortMask : UInt32
  promiscuousOn : Bool
  numaOn : Bool
  lcoreParams : List LcoreParams
  deriving DecidableEq, Repr

def NfArgs.init : NfArgs := ⟨Args.init, 0, false, true, lcoreParamsArrayDefault⟩

/-- A long option that is not one of `qflow_parse_long_opt`. -/
def parseNfLong (lib : OptionLib) (a : NfArgs) (name : String) (optarg : List Char) :
    Option NfArgs :=
  if name = "config" then (parseConfig lib optarg).map fun ps => { a with lcoreParams := ps }
  else if name = "no-numa" then some { a with numaOn := false }
  else if name = "rule_ipv4" ∨ name = "rule_ipv6" then some a
  else if name = "alg" then if String.ofList optarg ∈ aclAlgNames then some a else none
  else if name = "eth-dest" then if parseEthDest lib optarg then some a else none
  else none

/-- An option of nf-chain. -/
def parseArg (lib : OptionLib) (a : NfArgs) : Opt → Option NfArgs
  | .d optarg => (parseDescriptors optarg).map fun n => { a with nbRxd := n }
  | .q optarg => (parseQueuesArg optarg).map fun n => { a with queues := n }
  | .v => some { a with verbose := true }
  | .p optarg =>
    let mask := parsePortmask optarg
    if mask = 0 then none else some { a with enabledPortMask := mask }
  | .promiscuous => some { a with promiscuousOn := true }
  | .long name optarg =>
    let (qflow, ret) := qflowParseLongOpt a.qflow name optarg
    if ret < 0 then none
    else if 0 < ret then some { a with qflow := qflow }
    else parseNfLong lib { a with qflow := qflow } name optarg
  | .enableJumbo none => some a
  | .enableJumbo (some pktlen) =>
    let ret := parseMaxPktLen pktlen
    if ret < 64 ∨ MAX_JUMBO_PKT_LEN < ret then none else some a
  | .other => none

/-- `parse_args`. -/
def parseArgs (lib : OptionLib) (a : NfArgs) (opts : List Opt) : Option NfArgs :=
  opts.foldlM (parseArg lib) a

/-! ## The values at the end -/

section Values

variable {lib : OptionLib} {optarg : List Char} {pre post : List Opt}

namespace Mica

variable {a a' : Args} {x : Opt}

/-- Only `-q` sets the number of queues. -/
theorem parseArg_queues (hx : x.isQueues = false) (h : parseArg a x = some a') :
    a'.queues = a.queues := by
  cases x with
  | d optarg =>
    obtain ⟨n, -, rfl⟩ := Option.map_eq_some_iff.mp h
    rfl
  | q optarg => cases hx
  | v =>
    obtain rfl := Option.some.inj h
    rfl
  | long name optarg =>
    unfold parseArg at h
    dsimp only at h
    split at h
    · obtain rfl := Option.some.inj h
      rfl
    · cases h
  | p | promiscuous | enableJumbo | other => cases h

/-- Only `-d` sets the number of descriptors. -/
theorem parseArg_descriptors (hx : x.isDescriptors = false) (h : parseArg a x = some a') :
    a'.nbRxd = a.nbRxd := by
  cases x with
  | d optarg => cases hx
  | q optarg =>
    obtain ⟨n, -, rfl⟩ := Option.map_eq_some_iff.mp h
    rfl
  | v =>
    obtain rfl := Option.some.inj h
    rfl
  | long name optarg =>
    unfold parseArg at h
    dsimp only at h
    split at h
    · obtain rfl := Option.some.inj h
      rfl
    · cases h
  | p | promiscuous | enableJumbo | other => cases h

/-- **The last `-q` decides.** -/
theorem parseArgs_queues (hpost : ∀ x ∈ post, x.isQueues = false)
    (h : parseArgs a (pre ++ .q optarg :: post) = some a') :
    parseQueuesArg optarg = some a'.queues := by
  obtain ⟨t, t', -, hq, hrest⟩ := foldlM_split h
  obtain ⟨n, hn, rfl⟩ := Option.map_eq_some_iff.mp hq
  rw [hn, foldlM_keeps (f := Args.queues) (fun _ _ _ => parseArg_queues) hpost hrest]

/-- **The last `-d` decides.** -/
theorem parseArgs_descriptors (hpost : ∀ x ∈ post, x.isDescriptors = false)
    (h : parseArgs a (pre ++ .d optarg :: post) = some a') :
    parseDescriptors optarg = some a'.nbRxd := by
  obtain ⟨t, t', -, hd, hrest⟩ := foldlM_split h
  obtain ⟨n, hn, rfl⟩ := Option.map_eq_some_iff.mp hd
  rw [hn, foldlM_keeps (f := Args.nbRxd) (fun _ _ _ => parseArg_descriptors) hpost hrest]

theorem parseArgs_q (a : Args) (optarg : List Char) : parseArgs a [.q optarg] =
    (parseQueuesArg optarg).map fun n => { a with queues := n } := bind_pure _

theorem parseArgs_d (a : Args) (optarg : List Char) : parseArgs a [.d optarg] =
    (parseDescriptors optarg).map fun n => { a with nbRxd := n } := bind_pure _

end Mica

variable {a a' : NfArgs} {x : Opt}

theorem parseNfLong_args {name : String} (h : parseNfLong lib a name optarg = some a') :
    a'.toArgs = a.toArgs := by
  unfold parseNfLong at h
  split at h
  · obtain ⟨ps, -, rfl⟩ := Option.map_eq_some_iff.mp h
    rfl
  · split_ifs at h <;>
    · obtain rfl := Option.some.inj h
      rfl

/-- A long option sets neither. -/
theorem parseArg_long {name : String} (h : parseArg lib a (.long name optarg) = some a') :
    a'.queues = a.queues ∧ a'.nbRxd = a.nbRxd := by
  unfold parseArg at h
  dsimp only at h
  split at h
  · cases h
  · split at h
    · obtain rfl := Option.some.inj h
      exact ⟨rfl, rfl⟩
    · rw [parseNfLong_args h]
      exact ⟨rfl, rfl⟩

/-- The other options set neither either. -/
theorem parseArg_other (hq : x.isQueues = false) (hd : x.isDescriptors = false)
    (h : parseArg lib a x = some a') : a'.queues = a.queues ∧ a'.nbRxd = a.nbRxd := by
  cases x with
  | d optarg => cases hd
  | q optarg => cases hq
  | v | promiscuous =>
    obtain rfl := Option.some.inj h
    exact ⟨rfl, rfl⟩
  | p optarg =>
    unfold parseArg at h
    dsimp only at h
    split at h
    · cases h
    · obtain rfl := Option.some.inj h
      exact ⟨rfl, rfl⟩
  | long name optarg => exact parseArg_long h
  | enableJumbo maxPktLen =>
    cases maxPktLen with
    | none =>
      obtain rfl := Option.some.inj h
      exact ⟨rfl, rfl⟩
    | some pktlen =>
      unfold parseArg at h
      dsimp only at h
      split at h
      · cases h
      · obtain rfl := Option.some.inj h
        exact ⟨rfl, rfl⟩
  | other => cases h

theorem parseArg_queues (hx : x.isQueues = false) (h : parseArg lib a x = some a') :
    a'.queues = a.queues := by
  cases x with
  | d optarg =>
    obtain ⟨n, -, rfl⟩ := Option.map_eq_some_iff.mp h
    rfl
  | q optarg => cases hx
  | v | p | promiscuous | long | enableJumbo | other => exact (parseArg_other rfl rfl h).1

theorem parseArg_descriptors (hx : x.isDescriptors = false) (h : parseArg lib a x = some a') :
    a'.nbRxd = a.nbRxd := by
  cases x with
  | d optarg => cases hx
  | q optarg =>
    obtain ⟨n, -, rfl⟩ := Option.map_eq_some_iff.mp h
    rfl
  | v | p | promiscuous | long | enableJumbo | other => exact (parseArg_other rfl rfl h).2

/-- **The last `-q` decides.** -/
theorem parseArgs_queues (hpost : ∀ x ∈ post, x.isQueues = false)
    (h : parseArgs lib a (pre ++ .q optarg :: post) = some a') :
    parseQueuesArg optarg = some a'.queues := by
  obtain ⟨t, t', -, hq, hrest⟩ := foldlM_split h
  obtain ⟨n, hn, rfl⟩ := Option.map_eq_some_iff.mp hq
  rw [hn, foldlM_keeps (f := fun b : NfArgs => b.queues) (fun _ _ _ => parseArg_queues) hpost
    hrest]

/-- **The last `-d` decides.** -/
theorem parseArgs_descriptors (hpost : ∀ x ∈ post, x.isDescriptors = false)
    (h : parseArgs lib a (pre ++ .d optarg :: post) = some a') :
    parseDescriptors optarg = some a'.nbRxd := by
  obtain ⟨t, t', -, hd, hrest⟩ := foldlM_split h
  obtain ⟨n, hn, rfl⟩ := Option.map_eq_some_iff.mp hd
  rw [hn, foldlM_keeps (f := fun b : NfArgs => b.nbRxd) (fun _ _ _ => parseArg_descriptors) hpost
    hrest]

theorem parseArgs_q (lib : OptionLib) (a : NfArgs) (optarg : List Char) :
    parseArgs lib a [.q optarg] =
      (parseQueuesArg optarg).map fun n => { a with queues := n } := bind_pure _

theorem parseArgs_d (lib : OptionLib) (a : NfArgs) (optarg : List Char) :
    parseArgs lib a [.d optarg] =
      (parseDescriptors optarg).map fun n => { a with nbRxd := n } := bind_pure _

end Values

end QueueDpdk.Options
