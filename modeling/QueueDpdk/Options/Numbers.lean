import QueueDpdk.Options.Args

/-!
# What numeric options mean

A numeric option is read by `strtoul` and then narrowed to its field.

* `NumericField` — the numbers the checks of an option let through, and what the field gets.
* `MeansWhatIsWritten` — accepted strings are plain numbers and the field holds them.
* `NumericField.means_iff` — this fails for blanks, signs and numbers the field does not hold.
* `numeric_options` — the five options of the two programs.
-/

set_option autoImplicit false

namespace QueueDpdk.Options

open Lib

/-! ## Fields -/

/-- The numbers an option accepts, the value it stores for one, the least value the program needs,
    and the first number the field does not hold. -/
structure NumericField where
  accepts : ℕ → Prop
  store : ℕ → Int
  least : Int
  bound : ℕ
  bound_le : bound ≤ 2 ^ 64
  store_le : ∀ v, store v ≤ v
  store_eq : ∀ v < 2 ^ 64, store v = v ↔ v < bound
  least_le : ∀ v < bound, accepts v → least ≤ v

section Means

variable (f : NumericField) (stored : List Char → Int → Prop) (s : List Char)

/-- If the option is accepted with `s`, then `s` is a plain decimal number, the field holds it and
    it is large enough; a number that does not fit is rejected. -/
def MeansWhatIsWritten : Prop :=
  (∀ v, stored s v → IsDecimal s ∧ v = ofDigits 10 s ∧ f.least ≤ v) ∧
    (IsDecimal s → f.bound ≤ ofDigits 10 s → ∀ v, ¬stored s v)

/-- If `s` reads as a number that the option accepts, it has no blanks, no sign and fits. -/
def NumericField.Plain : Prop :=
  ∀ blanks sign digits, IsNumeral s blanks sign digits → f.accepts (numeral sign digits) →
    blanks = [] ∧ sign = [] ∧ ofDigits 10 digits < f.bound

/-- The option stores what `strtoul` reads. -/
def NumericField.ReadBy : Prop :=
  ∀ s v, stored s v ↔ ∃ blanks sign digits, IsNumeral s blanks sign digits ∧
    f.accepts (numeral sign digits) ∧ v = f.store (numeral sign digits)

end Means

section Fields

variable {f : NumericField} {stored : List Char → Int → Prop} {s digits : List Char}

/-- The field holds a plain number exactly if the number is below its bound. -/
theorem NumericField.store_plain (f : NumericField) (digits : List Char) :
    f.store (numeral [] digits) = ofDigits 10 digits ↔ ofDigits 10 digits < f.bound := by
  constructor
  · intro h
    have hle : (ofDigits 10 digits : Int) ≤ numeral [] digits := h ▸ f.store_le _
    have hfits : ofDigits 10 digits < 2 ^ 64 :=
      Nat.lt_of_le_of_lt (Int.ofNat_le.mp hle) (signedValue_lt _ _)
    rw [numeral_plain hfits] at h
    exact (f.store_eq _ hfits).mp h
  · intro h
    have hfits : ofDigits 10 digits < 2 ^ 64 := Nat.lt_of_lt_of_le h f.bound_le
    rw [numeral_plain hfits]
    exact (f.store_eq _ hfits).mpr h

/-- **When an option means what is written.** -/
theorem NumericField.means_iff (hread : f.ReadBy stored) (s : List Char) :
    MeansWhatIsWritten f stored s ↔ f.Plain s := by
  constructor
  · rintro ⟨hmeans, -⟩ blanks sign digits hn hacc
    obtain ⟨hdec, hval, -⟩ := hmeans _ ((hread s _).mpr ⟨blanks, sign, digits, hn, hacc, rfl⟩)
    obtain ⟨rfl, rfl⟩ := hn.plain_iff.mp hdec
    have hs : s = digits := hn.eq
    rw [hs] at hval
    exact ⟨rfl, rfl, (f.store_plain digits).mp hval⟩
  · intro hplain
    have hall : ∀ v, stored s v →
        IsDecimal s ∧ v = ofDigits 10 s ∧ f.least ≤ v ∧ ofDigits 10 s < f.bound := by
      intro v hv
      obtain ⟨blanks, sign, digits, hn, hacc, rfl⟩ := (hread s v).mp hv
      obtain ⟨rfl, rfl, hlt⟩ := hplain blanks sign digits hn hacc
      have hs : s = digits := hn.eq
      have hval := (f.store_plain digits).mpr hlt
      have hnum : numeral [] digits = ofDigits 10 digits :=
        numeral_plain (Nat.lt_of_lt_of_le hlt f.bound_le)
      rw [hs]
      refine ⟨hs ▸ hn.plain_iff.mpr ⟨rfl, rfl⟩, hval, ?_, hlt⟩
      rw [hval, ← hnum]
      exact f.least_le _ (hnum ▸ hlt) hacc
    refine ⟨fun v hv => ?_, fun _ hbig v hv => ?_⟩
    · obtain ⟨hdec, hval, hleast, -⟩ := hall v hv
      exact ⟨hdec, hval, hleast⟩
    · obtain ⟨-, -, -, hlt⟩ := hall v hv
      exact Nat.not_lt.mpr hbig hlt

end Fields

/-! ## The five options -/

theorem toSigned_le (v : ℕ) : toSigned v ≤ v := by
  unfold toSigned
  rw [Int.bmod_def]
  have hmod : ((v : Int) % ↑(2 ^ 32 : ℕ)) ≤ v := by
    rw [← Int.natCast_mod]
    exact Int.ofNat_le.mpr (Nat.mod_le _ _)
  split
  · exact hmod
  · have hpos : (0 : Int) < ↑(2 ^ 32 : ℕ) := Int.natCast_pos.mpr (Nat.two_pow_pos 32)
    omega

theorem toSigned_eq_iff (v : ℕ) : toSigned v = v ↔ v < 2 ^ 31 := by
  constructor
  · intro h
    have hlt : toSigned v < 2 ^ 31 := by
      have := Int.bmod_lt (x := v) (m := 2 ^ 32) (by decide)
      unfold toSigned
      omega
    omega
  · intro h
    exact toSigned_of_nonneg (Int.natCast_nonneg v) (by omega)

theorem mod_eq_self_iff {v m : ℕ} (hm : 0 < m) : ((v % m : ℕ) : Int) = v ↔ v < m := by
  rw [Int.ofNat_inj]
  exact ⟨fun h => h ▸ Nat.mod_lt v hm, Nat.mod_eq_of_lt⟩

theorem mod_le_self (v m : ℕ) : ((v % m : ℕ) : Int) ≤ v := Int.ofNat_le.mpr (Nat.mod_le v m)

theorem ne_zero_of_mod {v m : ℕ} (h : v % m ≠ 0) : v ≠ 0 := by
  rintro rfl
  exact h (Nat.zero_mod m)

/-- `--penalty`. -/
def penaltyField : NumericField where
  accepts v := v ≠ 0
  store v := (v % 2 ^ 32 : ℕ)
  least := 1
  bound := 2 ^ 32
  bound_le := by decide
  store_le v := mod_le_self v _
  store_eq v _ := mod_eq_self_iff (Nat.two_pow_pos 32)
  least_le v _ hv := Int.ofNat_le.mpr (Nat.pos_of_ne_zero hv)

/-- `--latency-queue`. -/
def latencyQueueField : NumericField where
  accepts _ := True
  store v := toSigned v
  least := 0
  bound := 2 ^ 31
  bound_le := by decide
  store_le := toSigned_le
  store_eq v _ := toSigned_eq_iff v
  least_le v _ _ := Int.natCast_nonneg v

/-- `--latency-period`. -/
def latencyPeriodField : NumericField where
  accepts v := v ≠ 0
  store v := toSigned v
  least := 1
  bound := 2 ^ 31
  bound_le := by decide
  store_le := toSigned_le
  store_eq v _ := toSigned_eq_iff v
  least_le v _ hv := Int.ofNat_le.mpr (Nat.pos_of_ne_zero hv)

/-- `-q`. -/
def queuesField : NumericField where
  accepts v := v % 2 ^ 16 ≠ 0
  store v := (v % 2 ^ 16 : ℕ)
  least := 1
  bound := 2 ^ 16
  bound_le := by decide
  store_le v := mod_le_self v _
  store_eq v _ := mod_eq_self_iff (Nat.two_pow_pos 16)
  least_le v _ hv := Int.ofNat_le.mpr (Nat.pos_of_ne_zero (ne_zero_of_mod hv))

/-- The check of `-d`. -/
def descriptorsOk (nbRxd : UInt16) : Prop := ¬(nbRxd < 64 ∨ nbRxd &&& (nbRxd - 1) ≠ 0)

theorem descriptorsOk_le {v : ℕ} (hlt : v < 2 ^ 16) (hv : descriptorsOk (UInt16.ofNat v)) :
    64 ≤ v := by
  have h64 : (64 : UInt16) ≤ UInt16.ofNat v := UInt16.not_lt.mp (not_or.mp hv).1
  have hle := UInt16.le_iff_toNat_le.mp h64
  rwa [UInt16.toNat_ofNat_of_lt' hlt] at hle

/-- `-d`. -/
def descriptorsField : NumericField where
  accepts v := descriptorsOk (UInt16.ofNat v)
  store v := (v % 2 ^ 16 : ℕ)
  least := 64
  bound := 2 ^ 16
  bound_le := by decide
  store_le v := mod_le_self v _
  store_eq v _ := mod_eq_self_iff (Nat.two_pow_pos 16)
  least_le v hlt hv := Int.ofNat_le.mpr (descriptorsOk_le hlt hv)

/-! ## What the two programs store -/

/-- `qflow_parse_long_opt` accepts `s` for `name`, and `field` of the options is `v` then. -/
def StoresLong (name : String) (field : QflowOpts → Int) (s : List Char) (v : Int) : Prop :=
  ∃ o o', qflowParseLongOpt o name s = (o', 1) ∧ v = field o'

/-- A loop accepts a command line in which `isOpt` holds of no option after `opt`, and `field` of
    its variables is `v` then. -/
def StoresLast {α : Type} (parse : α → List Opt → Option α) (opt : Opt) (isOpt : Opt → Bool)
    (field : α → UInt16) (v : Int) : Prop :=
  ∃ a a' pre post, (∀ x ∈ post, isOpt x = false) ∧
    parse a (pre ++ opt :: post) = some a' ∧ v = (field a').toNat

section Readings

variable {f : NumericField}

/-- An option of `qflow_parse_long_opt` that stores the number it reads. -/
theorem readBy_long {name : String} {field : QflowOpts → Int}
    (hok : ∀ o s, 0 ≤ (qflowParseUint s).1 → f.accepts (qflowParseUint s).2 →
      (qflowParseLongOpt o name s).2 = 1 ∧
        field (qflowParseLongOpt o name s).1 = f.store (qflowParseUint s).2)
    (hbad : ∀ o s, ¬(0 ≤ (qflowParseUint s).1 ∧ f.accepts (qflowParseUint s).2) →
      (qflowParseLongOpt o name s).2 = -1) :
    f.ReadBy (StoresLong name field) := by
  intro s v
  constructor
  · rintro ⟨o, o', h, rfl⟩
    have haccept : 0 ≤ (qflowParseUint s).1 ∧ f.accepts (qflowParseUint s).2 := by
      by_contra hno
      have hret : (1 : Int) = -1 := by
        rw [← hbad o s hno, h]
      exact absurd hret (by decide)
    obtain ⟨-, hfield⟩ := hok o s haccept.1 haccept.2
    rw [h] at hfield
    rcases qflowParseUint_cases s with ⟨blanks, sign, digits, hn, hu⟩ | ⟨-, hu⟩
    · rw [hu] at haccept hfield
      exact ⟨blanks, sign, digits, hn, haccept.2, hfield⟩
    · rw [hu] at haccept
      exact absurd haccept.1 (by decide)
  · rintro ⟨blanks, sign, digits, hn, hacc, rfl⟩
    have hu : qflowParseUint s = (0, numeral sign digits) := by
      rcases qflowParseUint_cases s with ⟨_, _, _, hn', hu⟩ | ⟨hno, -⟩
      · rw [hu, hn.unique hn']
      · exact absurd hn (hno blanks sign digits)
    obtain ⟨hret, hfield⟩ := hok qflowOptsInit s (hu ▸ Int.le_refl 0) (hu ▸ hacc)
    rw [hu] at hfield
    exact ⟨qflowOptsInit, _, Prod.ext rfl hret, hfield.symm⟩

/-- The check of a number that must not be 0. -/
theorem rejected_of_not {ret : Int} {v : ℕ} (h : ¬(0 ≤ ret ∧ v ≠ 0)) : ret < 0 ∨ v = 0 := by
  omega

theorem penalty_readBy :
    penaltyField.ReadBy (StoresLong QFLOW_OPT_PENALTY fun o => o.penaltyTurns.toNat) := by
  apply readBy_long
  · intro o s hret hacc
    rw [qflowParseLongOpt_penalty, if_neg (not_or.mpr ⟨Int.not_lt.mpr hret, hacc⟩)]
    exact ⟨rfl, rfl⟩
  · intro o s hno
    rw [qflowParseLongOpt_penalty, if_pos (rejected_of_not hno)]

theorem latencyQueue_readBy :
    latencyQueueField.ReadBy (StoresLong QFLOW_OPT_LATENCY_QUEUE QflowOpts.latencyQueue) := by
  apply readBy_long
  · intro o s hret _
    rw [qflowParseLongOpt_latencyQueue, if_neg (Int.not_lt.mpr hret)]
    exact ⟨rfl, rfl⟩
  · intro o s hno
    have hbad : (qflowParseUint s).1 < 0 := by
      by_contra h
      exact hno ⟨Int.not_lt.mp h, trivial⟩
    rw [qflowParseLongOpt_latencyQueue, if_pos hbad]

theorem latencyPeriod_readBy :
    latencyPeriodField.ReadBy (StoresLong QFLOW_OPT_LATENCY_PERIOD QflowOpts.latencyPeriod) := by
  apply readBy_long
  · intro o s hret hacc
    rw [qflowParseLongOpt_latencyPeriod, if_neg (not_or.mpr ⟨Int.not_lt.mpr hret, hacc⟩)]
    exact ⟨rfl, rfl⟩
  · intro o s hno
    rw [qflowParseLongOpt_latencyPeriod, if_pos (rejected_of_not hno)]

/-- The number that `parse_queues` reads, narrowed to 16 bits. -/
theorem parseQueues_toUInt16 {s blanks sign digits : List Char}
    (hn : IsNumeral s blanks sign digits) :
    (parseQueues s).toUInt16 = UInt16.ofNat (numeral sign digits) := by
  rcases parseQueues_cases s with ⟨_, _, _, hn', hq⟩ | ⟨hno, -⟩
  · rw [hq, hn.unique hn']
    apply UInt16.toNat_inj.mp
    rw [UInt32.toNat_toUInt16, UInt32.toNat_ofNat', UInt16.toNat_ofNat']
    exact Nat.mod_mod_of_dvd _ (by decide)
  · exact absurd hn (hno blanks sign digits)

/-- An option of `parse_args` that narrows the number to 16 bits and checks it then. -/
theorem readBy_last {α : Type} {parse : α → List Opt → Option α} {opt : List Char → Opt}
    {isOpt : Opt → Bool} {field : α → UInt16} {read : List Char → Option UInt16}
    {ok : UInt16 → Prop} (a : α) (hstore : ∀ v, f.store v = (UInt16.ofNat v).toNat)
    (haccepts : ∀ v, f.accepts v ↔ ok (UInt16.ofNat v)) (hzero : ¬ok 0)
    (hread : ∀ s n, read s = some n ↔ (parseQueues s).toUInt16 = n ∧ ok n)
    (hlast : ∀ a pre post s a', (∀ x ∈ post, isOpt x = false) →
      parse a (pre ++ opt s :: post) = some a' → read s = some (field a'))
    (hone : ∀ s n, read s = some n → ∃ a', parse a [opt s] = some a' ∧ field a' = n) :
    f.ReadBy (fun s v => StoresLast parse (opt s) isOpt field v) := by
  intro s v
  constructor
  · rintro ⟨a, a', pre, post, hpost, hparse, rfl⟩
    obtain ⟨hq, hok⟩ := (hread s _).mp (hlast a pre post s a' hpost hparse)
    rcases parseQueues_cases s with ⟨blanks, sign, digits, hn, -⟩ | ⟨-, hbad⟩
    · rw [parseQueues_toUInt16 hn] at hq
      refine ⟨blanks, sign, digits, hn, (haccepts _).mpr (hq ▸ hok), ?_⟩
      rw [hstore, hq]
    · rw [hbad] at hq
      rw [← hq] at hok
      exact absurd hok hzero
  · rintro ⟨blanks, sign, digits, hn, hacc, rfl⟩
    obtain ⟨a', hparse, hfield⟩ := hone s (UInt16.ofNat (numeral sign digits))
      ((hread s _).mpr ⟨parseQueues_toUInt16 hn, (haccepts _).mp hacc⟩)
    exact ⟨a, a', [], [], nofun, hparse, by rw [hfield, hstore]⟩

theorem parseQueuesArg_iff (s : List Char) (n : UInt16) :
    parseQueuesArg s = some n ↔ (parseQueues s).toUInt16 = n ∧ n ≠ 0 := by
  unfold parseQueuesArg
  dsimp only
  split
  · rename_i hzero
    rw [hzero]
    exact ⟨nofun, fun h => absurd h.1.symm h.2⟩
  · rename_i hne
    rw [Option.some.injEq]
    exact ⟨fun h => ⟨h, h ▸ hne⟩, And.left⟩

theorem parseDescriptors_iff (s : List Char) (n : UInt16) :
    parseDescriptors s = some n ↔ (parseQueues s).toUInt16 = n ∧ descriptorsOk n := by
  unfold parseDescriptors
  dsimp only
  split
  · rename_i hbad
    exact ⟨nofun, fun h => absurd (h.1 ▸ hbad) h.2⟩
  · rename_i hok
    rw [Option.some.injEq]
    exact ⟨fun h => ⟨h, h ▸ hok⟩, And.left⟩

theorem queues_accepts (v : ℕ) : queuesField.accepts v ↔ UInt16.ofNat v ≠ 0 := by
  have hzero : UInt16.ofNat v = 0 ↔ v % 2 ^ 16 = 0 := by
    rw [← UInt16.toNat_inj, UInt16.toNat_ofNat']
    exact Iff.rfl
  exact not_congr hzero.symm

theorem store16 (v : ℕ) : ((v % 2 ^ 16 : ℕ) : Int) = (UInt16.ofNat v).toNat := by
  rw [UInt16.toNat_ofNat']

/-- `-q` of mica. -/
theorem Mica.queues_readBy : queuesField.ReadBy
    (fun s => StoresLast Mica.parseArgs (.q s) Opt.isQueues Args.queues) := by
  refine readBy_last Args.init store16 queues_accepts (fun h => h rfl) parseQueuesArg_iff
    (fun _ _ _ _ _ => Mica.parseArgs_queues) fun s n hn => ?_
  · rw [Mica.parseArgs_q, hn]
    exact ⟨_, rfl, rfl⟩

/-- `-d` of mica. -/
theorem Mica.descriptors_readBy : descriptorsField.ReadBy
    (fun s => StoresLast Mica.parseArgs (.d s) Opt.isDescriptors Args.nbRxd) := by
  refine readBy_last Args.init store16 (fun _ => Iff.rfl) (fun h => h (Or.inl (by decide)))
    parseDescriptors_iff (fun _ _ _ _ _ => Mica.parseArgs_descriptors) fun s n hn => ?_
  · rw [Mica.parseArgs_d, hn]
    exact ⟨_, rfl, rfl⟩

/-- `-q` of nf-chain. -/
theorem queues_readBy (lib : OptionLib) : queuesField.ReadBy
    (fun s => StoresLast (parseArgs lib) (.q s) Opt.isQueues fun a => a.queues) := by
  refine readBy_last NfArgs.init store16 queues_accepts (fun h => h rfl) parseQueuesArg_iff
    (fun _ _ _ _ _ => parseArgs_queues) fun s n hn => ?_
  · rw [parseArgs_q, hn]
    exact ⟨_, rfl, rfl⟩

/-- `-d` of nf-chain. -/
theorem descriptors_readBy (lib : OptionLib) : descriptorsField.ReadBy
    (fun s => StoresLast (parseArgs lib) (.d s) Opt.isDescriptors fun a => a.nbRxd) := by
  refine readBy_last NfArgs.init store16 (fun _ => Iff.rfl)
    (fun h => h (Or.inl (by decide))) parseDescriptors_iff
    (fun _ _ _ _ _ => parseArgs_descriptors) fun s n hn => ?_
  · rw [parseArgs_d, hn]
    exact ⟨_, rfl, rfl⟩

end Readings

/-! ## When they mean what is written -/

/-- A latency queue that is accepted and passes `qflow_check` is a queue, and the one named. -/
def NamesLatencyQueue (s : List Char) : Prop :=
  ∀ o o' queues nbLcores, qflowParseLongOpt o QFLOW_OPT_LATENCY_QUEUE s = (o', 1) →
    0 ≤ qflowCheck o' queues nbLcores →
    IsDecimal s ∧ o'.latencyQueue = ofDigits 10 s ∧ o'.latencyQueue < queues.toNat

/-- An accepted latency queue switches Latency on. -/
theorem latencyQueue_on {o o' : QflowOpts} {s : List Char}
    (h : qflowParseLongOpt o QFLOW_OPT_LATENCY_QUEUE s = (o', 1)) : o'.latency = true := by
  rw [qflowParseLongOpt_latencyQueue] at h
  split at h
  · cases h
  · obtain ⟨rfl, -⟩ := Prod.mk.inj h
    rfl

theorem namesLatencyQueue {s : List Char} (h : MeansWhatIsWritten latencyQueueField
    (StoresLong QFLOW_OPT_LATENCY_QUEUE QflowOpts.latencyQueue) s) : NamesLatencyQueue s := by
  intro o o' queues nbLcores hparse hcheck
  obtain ⟨hdec, hval, hnonneg⟩ := h.1 _ ⟨o, o', hparse, rfl⟩
  refine ⟨hdec, hval, ?_⟩
  have hfits : (ofDigits 10 s : Int) < 2 ^ 31 := by
    by_contra hbig
    have hrejected := h.2 hdec (Int.ofNat_le.mp (Int.not_lt.mp hbig))
    exact hrejected _ ⟨o, o', hparse, rfl⟩
  have hlt := qflowCheck_latency hcheck (latencyQueue_on hparse)
  rwa [toUnsigned_of_nonneg hnonneg (by omega)] at hlt

/-- **Numeric options mean what is written** exactly for the strings that, if they read as a number
    the option accepts, are plain numbers below the bound of its field. -/
theorem numeric_options (s : List Char) (lib : OptionLib) :
    (MeansWhatIsWritten penaltyField
        (StoresLong QFLOW_OPT_PENALTY fun o => o.penaltyTurns.toNat) s ↔ penaltyField.Plain s) ∧
      ((MeansWhatIsWritten latencyQueueField
          (StoresLong QFLOW_OPT_LATENCY_QUEUE QflowOpts.latencyQueue) s ∧ NamesLatencyQueue s) ↔
        latencyQueueField.Plain s) ∧
      (MeansWhatIsWritten latencyPeriodField
          (StoresLong QFLOW_OPT_LATENCY_PERIOD QflowOpts.latencyPeriod) s ↔
        latencyPeriodField.Plain s) ∧
      (MeansWhatIsWritten queuesField
          (fun s => StoresLast Mica.parseArgs (.q s) Opt.isQueues Args.queues) s ↔
        queuesField.Plain s) ∧
      (MeansWhatIsWritten descriptorsField
          (fun s => StoresLast Mica.parseArgs (.d s) Opt.isDescriptors Args.nbRxd) s ↔
        descriptorsField.Plain s) ∧
      (MeansWhatIsWritten queuesField
          (fun s => StoresLast (parseArgs lib) (.q s) Opt.isQueues fun a => a.queues) s ↔
        queuesField.Plain s) ∧
      (MeansWhatIsWritten descriptorsField
          (fun s => StoresLast (parseArgs lib) (.d s) Opt.isDescriptors fun a => a.nbRxd) s ↔
        descriptorsField.Plain s) := by
  have hlatency := latencyQueueField.means_iff latencyQueue_readBy s
  refine ⟨penaltyField.means_iff penalty_readBy s, ?_,
    latencyPeriodField.means_iff latencyPeriod_readBy s,
    queuesField.means_iff Mica.queues_readBy s,
    descriptorsField.means_iff Mica.descriptors_readBy s,
    queuesField.means_iff (queues_readBy lib) s,
    descriptorsField.means_iff (descriptors_readBy lib) s⟩
  constructor
  · rintro ⟨hmeans, -⟩
    exact hlatency.mp hmeans
  · intro hplain
    have hmeans := hlatency.mpr hplain
    exact ⟨hmeans, namesLatencyQueue hmeans⟩

/-- A penalty of `2 ^ 32` is accepted, and none is stored. -/
theorem penalty_vanishes :
    qflowParseLongOpt qflowOptsInit QFLOW_OPT_PENALTY "4294967296".toList =
        ({ qflowOptsInit with penaltyTurns := 0 }, 1) ∧
      ¬MeansWhatIsWritten penaltyField
        (StoresLong QFLOW_OPT_PENALTY fun o => o.penaltyTurns.toNat) "4294967296".toList := by
  have hparse : qflowParseLongOpt qflowOptsInit QFLOW_OPT_PENALTY "4294967296".toList =
      ({ qflowOptsInit with penaltyTurns := 0 }, 1) := by decide +kernel
  refine ⟨hparse, fun h => ?_⟩
  obtain ⟨-, -, hleast⟩ := h.1 _ ⟨_, _, hparse, rfl⟩
  exact absurd hleast (by decide)

end QueueDpdk.Options
