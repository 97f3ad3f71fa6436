import IoUring.Foundation.Cast

/-!
# Timeouts from durations

A `Duration` counts unsigned seconds and a `Timespec` signed ones; the setter
casts, so the upper half of the seconds comes out negative.
-/

namespace IoUring.Types

/-- `std::time::Duration`: seconds, and the nanoseconds of the last one. -/
structure Duration where
  secs : UInt64
  subsecNanos : UInt32
  subsecNanos_lt : subsecNanos.toNat < 1000000000

namespace Duration

def zero : Duration where
  secs := 0
  subsecNanos := 0
  subsecNanos_lt := by decide

def max : Duration where
  secs := 0xffffffffffffffff
  subsecNanos := 999999999
  subsecNanos_lt := by decide

/-- The length in nanoseconds. -/
def nanos (d : Duration) : Int := d.secs.toNat * 1000000000 + d.subsecNanos.toNat

end Duration

/-- `Timespec`, a `__kernel_timespec`. -/
structure Timespec where
  tvSec : Int64
  tvNsec : Int64

namespace Timespec

def new : Timespec where
  tvSec := 0
  tvNsec := 0

def sec (ts : Timespec) (sec : UInt64) : Timespec := { ts with tvSec := sec.toInt64 }

def nsec (ts : Timespec) (nsec : UInt32) : Timespec :=
  { ts with tvNsec := nsec.toUInt64.toInt64 }

/-- `From<Duration>`. -/
def ofDuration (value : Duration) : Timespec := (new.sec value.secs).nsec value.subsecNanos

/-- The time the kernel reads, in nanoseconds. -/
def nanos (ts : Timespec) : Int := ts.tvSec.toInt * 1000000000 + ts.tvNsec.toInt

/-- The kernel rejects a timeout that is not of this form. -/
structure Valid (ts : Timespec) : Prop where
  sec_nonneg : 0 ≤ ts.tvSec.toInt
  nsec_nonneg : 0 ≤ ts.tvNsec.toInt
  nsec_lt : ts.tvNsec.toInt < 1000000000

variable (d : Duration)

/-- Nanoseconds fit, whatever the type they are cast through. -/
theorem tvNsec_ofDuration : (ofDuration d).tvNsec.toInt = d.subsecNanos.toNat := by
  have hlt := d.subsecNanos_lt
  change d.subsecNanos.toUInt64.toInt64.toInt = _
  rw [Foundation.toInt_toInt64, UInt32.toNat_toUInt64, if_pos (by omega)]

theorem tvSec_ofDuration : (ofDuration d).tvSec.toInt =
    if d.secs.toNat < 2 ^ 63 then (d.secs.toNat : Int) else d.secs.toNat - 2 ^ 64 :=
  Foundation.toInt_toInt64 d.secs

theorem nanos_ofDuration (h : d.secs.toNat < 2 ^ 63) : (ofDuration d).nanos = d.nanos := by
  rw [nanos, tvSec_ofDuration, tvNsec_ofDuration, if_pos h, Duration.nanos]

theorem valid_ofDuration (h : d.secs.toNat < 2 ^ 63) : (ofDuration d).Valid := by
  have hlt := d.subsecNanos_lt
  constructor
  · rw [tvSec_ofDuration, if_pos h]
    exact Int.natCast_nonneg _
  · rw [tvNsec_ofDuration]
    exact Int.natCast_nonneg _
  · rw [tvNsec_ofDuration]
    omega

/-- A duration keeps its length, as a timeout the kernel takes, exactly while its seconds fit a
signed number; and among such durations a longer one is a later timeout. -/
theorem duration_kept_iff :
    ((ofDuration d).Valid ∧ (ofDuration d).nanos = d.nanos ↔ d.secs.toNat < 2 ^ 63) ∧
      ∀ d' : Duration, d.secs.toNat < 2 ^ 63 → d'.secs.toNat < 2 ^ 63 →
        ((ofDuration d).nanos < (ofDuration d').nanos ↔ d.nanos < d'.nanos) := by
  constructor
  · constructor
    · rintro ⟨hvalid, -⟩
      have hsec := hvalid.sec_nonneg
      have hlt := d.secs.toNat_lt
      rw [tvSec_ofDuration] at hsec
      split at hsec
      · assumption
      · omega
    · intro h
      exact ⟨valid_ofDuration d h, nanos_ofDuration d h⟩
  · intro d' h h'
    rw [nanos_ofDuration d h, nanos_ofDuration d' h']

/-- `Duration::MAX` comes out negative, earlier than no time at all. -/
theorem duration_max_negative :
    (ofDuration .max).tvSec = -1 ∧ ¬ (ofDuration .max).Valid ∧
      Duration.zero.nanos < Duration.max.nanos ∧
      (ofDuration .max).nanos < (ofDuration .zero).nanos := by
  refine ⟨by decide, ?_, by decide, by decide⟩
  intro hvalid
  exact absurd hvalid.sec_nonneg (by decide)

/-- A value that the public functions make; the derived `default` is `new`. -/
inductive Constructed : Timespec → Prop
  | new : Constructed .new
  | sec {ts : Timespec} (h : Constructed ts) (sec : UInt64) : Constructed (ts.sec sec)
  | nsec {ts : Timespec} (h : Constructed ts) (nsec : UInt32) : Constructed (ts.nsec nsec)
  | ofDuration (d : Duration) : Constructed (ofDuration d)

/-- Nanoseconds come from an unsigned number that is narrower than their field. -/
theorem Constructed.nsec_nonneg {ts : Timespec} (h : ts.Constructed) : 0 ≤ ts.tvNsec.toInt := by
  induction h with
  | new => exact Int.le_refl 0
  | sec _ _ ih => exact ih
  | nsec _ nsec _ =>
      have hlt := nsec.toNat_lt
      change 0 ≤ nsec.toUInt64.toInt64.toInt
      rw [Foundation.toInt_toInt64, UInt32.toNat_toUInt64, if_pos (by omega)]
      exact Int.natCast_nonneg _
  | ofDuration d =>
      rw [tvNsec_ofDuration]
      exact Int.natCast_nonneg _

end Timespec

end IoUring.Types
