import Falcon.Vmm.State
import Mathlib.Data.UInt

/-!
# System/Durations — the durations of the enforcers' timers

`VMMEnforcer::Init` and `ProcessEnforcer::Init` read durations in micro- and milliseconds from the
configuration and turn them into the seconds and nanoseconds that `delaycb` and `timedcall` take.
`unsigned int` has 32 bits here and `long` has 64; every value is non-negative, so that the `long`s
are `UInt64`s.

* `durations_exact_iff` — all five pairs denote the configured durations exactly if none of the
  three products of `VMMEnforcer::Init` reaches `2 ^ 32` and the two waits of
  `ProcessEnforcer::Init` are below a second.
-/

namespace Falcon

/-! ## What `Init` computes -/

def kMicrosecondsToNanoseconds : UInt32 := 1000

def kSecondsToMilliseconds : UInt64 := 1000

def kMillisecondsToNanoseconds : UInt64 := 1000 * 1000

def kSecondsToNanoseconds : UInt64 := kSecondsToMilliseconds * kMillisecondsToNanoseconds

/-- The two numbers `delaycb` and `timedcall` take. -/
structure Timespan where
  sec : UInt32
  nsec : UInt32
  deriving DecidableEq, Repr

/-- The quotient and the rest of `ns` by a second. -/
def Timespan.ofNanoseconds (ns : UInt32) : Timespan where
  sec := (ns.toUInt64 / kSecondsToNanoseconds).toUInt32
  nsec := (ns.toUInt64 % kSecondsToNanoseconds).toUInt32

/-- What is configured under a key. -/
abbrev Config := String → Option UInt32

/-- `Config::GetFromConfig(key, &out, default_value)`. -/
def Config.getFromConfig (config : Config) (key : String) (defaultValue : UInt32) : UInt32 :=
  (config key).getD defaultValue

namespace VMMEnforcer

def kVMMRespUs : UInt32 := 20000

/-- The variables `Init` reads. -/
structure Settings where
  maxVmmRetry : UInt32
  checkUs : UInt32
  respUs : UInt32
  deriving DecidableEq, Repr

/-- `check_us` has the default of `resp_us`. -/
def Settings.read (config : Config) : Settings where
  maxVmmRetry := config.getFromConfig "vmm_retry" (.ofNat kVMMRetry)
  checkUs := config.getFromConfig "check_us" kVMMRespUs
  respUs := config.getFromConfig "resp_us" kVMMRespUs

variable (v : Settings)

/-- `vmm_check_s_` and `vmm_check_ns_`. -/
def Settings.vmmCheck : Timespan := .ofNanoseconds (v.checkUs * kMicrosecondsToNanoseconds)

/-- `vmm_resp_s_` and `vmm_resp_ns_`. -/
def Settings.vmmResp : Timespan := .ofNanoseconds (v.respUs * kMicrosecondsToNanoseconds)

/-- `vmm_to_s_` and `vmm_to_ns_`. -/
def Settings.vmmTo : Timespan :=
  .ofNanoseconds (v.respUs * (v.maxVmmRetry + 1) * kMicrosecondsToNanoseconds)

end VMMEnforcer

namespace ProcessEnforcer

/-- The variables `Init` reads. -/
structure Settings where
  confirmWaitMs : UInt32
  pollFreqMs : UInt32
  deriving DecidableEq, Repr

def Settings.read (config : Config) : Settings where
  confirmWaitMs := config.getFromConfig "confirm_wait_ms" 5
  pollFreqMs := config.getFromConfig "poll_freq_ms" 100

variable (p : Settings)

def Settings.confirmWaitNs : UInt32 :=
  (p.confirmWaitMs.toUInt64 * kMillisecondsToNanoseconds).toUInt32

def Settings.pollFreqNs : UInt32 :=
  (p.pollFreqMs.toUInt64 * kMillisecondsToNanoseconds).toUInt32

end ProcessEnforcer

/-! ## What a pair denotes -/

/-- The pair is well formed, and stands for `d` nanoseconds. -/
def Timespan.Denotes (t : Timespan) (d : ℕ) : Prop :=
  t.nsec.toNat < 10 ^ 9 ∧ t.sec.toNat * 10 ^ 9 + t.nsec.toNat = d

/-- The pairs the enforcers hand to `delaycb` and `timedcall`, each with the configured duration. -/
def durations (v : VMMEnforcer.Settings) (p : ProcessEnforcer.Settings) : List (Timespan × ℕ) :=
  [(v.vmmCheck, v.checkUs.toNat * 1000),
   (v.vmmResp, v.respUs.toNat * 1000),
   (v.vmmTo, v.respUs.toNat * (v.maxVmmRetry.toNat + 1) * 1000),
   (⟨0, p.confirmWaitNs⟩, p.confirmWaitMs.toNat * 10 ^ 6),
   (⟨0, p.pollFreqNs⟩, p.pollFreqMs.toNat * 10 ^ 6)]

/-- The products of `VMMEnforcer::Init` fit into 32 bits. -/
def VMMEnforcer.Settings.Fits (v : Settings) : Prop :=
  v.checkUs.toNat * 1000 < 2 ^ 32 ∧ v.respUs.toNat * 1000 < 2 ^ 32 ∧
    v.respUs.toNat * (v.maxVmmRetry.toNat + 1) * 1000 < 2 ^ 32

/-- The waits of `ProcessEnforcer::Init` are below a second. -/
def ProcessEnforcer.Settings.BelowSecond (p : Settings) : Prop :=
  p.confirmWaitMs.toNat < 1000 ∧ p.pollFreqMs.toNat < 1000

/-- The quotient and the rest of what wrapped around denote what did. -/
theorem Timespan.denotes_ofNanoseconds {ns : UInt32} {d : ℕ} (hns : ns.toNat = d % 2 ^ 32) :
    (ofNanoseconds ns).Denotes d ↔ d < 2 ^ 32 := by
  have hlt : ns.toNat < 2 ^ 32 := ns.toNat_lt
  have hsec : (ofNanoseconds ns).sec.toNat = ns.toNat / 10 ^ 9 := by
    simp [ofNanoseconds, kSecondsToNanoseconds, kSecondsToMilliseconds, kMillisecondsToNanoseconds]
    omega
  have hnsec : (ofNanoseconds ns).nsec.toNat = ns.toNat % 10 ^ 9 := by
    simp [ofNanoseconds, kSecondsToNanoseconds, kSecondsToMilliseconds, kMillisecondsToNanoseconds]
    omega
  rw [Denotes, hsec, hnsec]
  omega

/-- What is below a second denotes itself, and nothing else does. -/
theorem Timespan.denotes_subsecond {ms ns : UInt32} (hns : ns.toNat = ms.toNat * 10 ^ 6 % 2 ^ 32) :
    (⟨0, ns⟩ : Timespan).Denotes (ms.toNat * 10 ^ 6) ↔ ms.toNat < 1000 := by
  rw [Denotes]
  change ns.toNat < 10 ^ 9 ∧ (0 : UInt32).toNat * 10 ^ 9 + ns.toNat = _ ↔ _
  rw [UInt32.toNat_zero, hns]
  constructor
  · rintro ⟨hlt, heq⟩
    omega
  · intro hms
    rw [Nat.mod_eq_of_lt (by omega)]
    omega

theorem ProcessEnforcer.toNat_wait (ms : UInt32) :
    (ms.toUInt64 * kMillisecondsToNanoseconds).toUInt32.toNat = ms.toNat * 10 ^ 6 % 2 ^ 32 := by
  have hlt : ms.toNat < 2 ^ 32 := ms.toNat_lt
  simp only [kMillisecondsToNanoseconds, UInt64.toNat_toUInt32, UInt64.toNat_mul,
    UInt32.toNat_toUInt64, UInt64.reduceMul, UInt64.toNat_ofNat]
  omega

/-- **The timers denote the configured durations** exactly if no product of `VMMEnforcer::Init`
wraps around and the waits of `ProcessEnforcer::Init` are below a second. -/
theorem durations_exact_iff (v : VMMEnforcer.Settings) (p : ProcessEnforcer.Settings) :
    (∀ x ∈ durations v p, x.1.Denotes x.2) ↔ v.Fits ∧ p.BelowSecond := by
  have hcheck : v.vmmCheck.Denotes (v.checkUs.toNat * 1000) ↔ v.checkUs.toNat * 1000 < 2 ^ 32 :=
    Timespan.denotes_ofNanoseconds (UInt32.toNat_mul _ _)
  have hresp : v.vmmResp.Denotes (v.respUs.toNat * 1000) ↔ v.respUs.toNat * 1000 < 2 ^ 32 :=
    Timespan.denotes_ofNanoseconds (UInt32.toNat_mul _ _)
  have hto : v.vmmTo.Denotes (v.respUs.toNat * (v.maxVmmRetry.toNat + 1) * 1000) ↔
      v.respUs.toNat * (v.maxVmmRetry.toNat + 1) * 1000 < 2 ^ 32 := by
    refine Timespan.denotes_ofNanoseconds ?_
    rw [UInt32.toNat_mul, UInt32.toNat_mul, UInt32.toNat_add, Nat.mul_mod_mod, Nat.mod_mul_mod]
    rfl
  have hconfirm := Timespan.denotes_subsecond (ProcessEnforcer.toNat_wait p.confirmWaitMs)
  have hpoll := Timespan.denotes_subsecond (ProcessEnforcer.toNat_wait p.pollFreqMs)
  simp only [durations, List.forall_mem_cons, hcheck, hresp, hto]
  rw [ProcessEnforcer.Settings.confirmWaitNs, ProcessEnforcer.Settings.pollFreqNs, hconfirm, hpoll,
    VMMEnforcer.Settings.Fits, ProcessEnforcer.Settings.BelowSecond]
  simp [and_assoc]

/-- The defaults are exact. -/
example : durations (.read fun _ => none) (.read fun _ => none) =
    [(⟨0, 20000000⟩, 20000000), (⟨0, 20000000⟩, 20000000), (⟨0, 120000000⟩, 120000000),
     (⟨0, 5000000⟩, 5000000), (⟨0, 100000000⟩, 100000000)] := by decide

/-- With a response time of a second a probe is to be given up after six of them; `vmm_to_s_` and
`vmm_to_ns_` are 1.705032704 seconds. -/
theorem durations_wrap : ∃ v p, ¬ (∀ x ∈ durations v p, x.1.Denotes x.2) ∧
    v = ⟨5, 20000, 1000000⟩ ∧ p = ⟨5, 100⟩ ∧ v.vmmTo = ⟨1, 705032704⟩ := by
  refine ⟨_, _, fun h => ?_, rfl, rfl, by decide⟩
  obtain ⟨-, hexact⟩ := h _ (List.mem_cons_of_mem _ (List.mem_cons_of_mem _ List.mem_cons_self))
  exact absurd hexact (by decide)

end Falcon
