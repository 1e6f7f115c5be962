import Mathlib.Data.List.Induction
import Attitude.FieldStream
import Attitude.Process
import Attitude.Proofs.Binary32.Truncation

/-!
# The pace of field reports

A stream that is polled makes its first report at once and every later one at least an interval after
the one before, whatever the clock does in between. All of this rests on one invariant: the stamp
that a stream keeps is that of its latest report.

The invariant says less than it seems to at one stamp. The largest stamp also stands for no report,
so a report made then is forgotten, and the next poll is answered whenever it comes.

## Main definitions

* `FieldStream.reports`: the reports that a new stream makes over a list of polls
* `FieldStream.period`: the whole microseconds between two reports at a given rate
* `FieldStream.Paced`: how reports keep apart
-/

namespace Attitude
namespace FieldStream
open Binary32

/-- A poll of a stream: when, and for which field. A report that answers it carries the same. -/
structure Poll (α : Type) where
  stamp : UInt64
  field : Vec3 α

variable {α : Type}

/-- Poll a stream, and give the report if one is made. -/
def answer (s : FieldStream) (p : Poll α) : FieldStream × List (Poll α) :=
  let (s, report) := s.poll p.stamp p.field
  (s, (report.map (Poll.mk p.stamp)).toList)

/-- A stream as a process from polls to reports. -/
def answering : Process FieldStream (Poll α) (Poll α) := answer

/-- The reports that a new stream makes. -/
def reports [Scalar α] (rate : α) (ps : List (Poll α)) : List (Poll α) := (answering.run (new rate) ps).2

/-! ## One poll -/

theorem answer_of_due {s : FieldStream} {p : Poll α} (h : s.isDue p.stamp = true) :
    s.answer p = (s.mark p.stamp, [p]) := by
  simp [answer, poll, h]

theorem answer_of_not_due {s : FieldStream} {p : Poll α} (h : ¬ s.isDue p.stamp = true) :
    s.answer p = (s, []) := by
  simp [answer, poll, h]

/-- When a stream that is on owes a report. A clock behind the last report owes none, since the
interval is not zero. -/
theorem isDue_iff {s : FieldStream} (h : s.interval ≠ 0) (now : UInt64) :
    s.isDue now = true ↔ s.last = never ∨ s.last.toNat + s.interval.toNat ≤ now.toNat := by
  have hpos : 0 < s.interval.toNat := by
    rw [Nat.pos_iff_ne_zero]
    intro h0
    exact h (UInt64.toNat_inj.mp h0)
  by_cases hlast : s.last = never
  · simp [isDue_of_never h hlast, hlast]
  · have hon : s.isEnabled = true := bne_iff_ne.mpr h
    rw [isDue, hon, Bool.not_true, if_neg Bool.false_ne_true, if_neg hlast, or_iff_right hlast]
    dsimp only
    rw [decide_eq_true_eq]
    split
    · rename_i hbehind
      rw [UInt64.lt_iff_toNat_lt] at hbehind
      rw [UInt64.le_iff_toNat_le, UInt64.toNat_zero]
      omega
    · rename_i hahead
      have hle : s.last ≤ now := UInt64.not_lt.mp hahead
      rw [UInt64.le_iff_toNat_le, UInt64.toNat_sub_of_le _ _ hle]
      rw [UInt64.le_iff_toNat_le] at hle
      omega

/-! ## Runs -/

theorem interval_run (s : FieldStream) (ps : List (Poll α)) :
    (answering.run s ps).1.interval = s.interval := by
  induction ps generalizing s with
  | nil => rfl
  | cons p ps ih =>
    rw [Process.run_cons, ih, answering]
    by_cases h : s.isDue p.stamp = true
    · rw [answer_of_due h, mark]
    · rw [answer_of_not_due h]

/-- One more poll is answered or not, and nothing else changes in what has been reported. -/
theorem run_concat (s : FieldStream) (ps : List (Poll α)) (p : Poll α) :
    answering.run s (ps ++ [p]) =
      if (answering.run s ps).1.isDue p.stamp = true then
        ((answering.run s ps).1.mark p.stamp, (answering.run s ps).2 ++ [p])
      else answering.run s ps := by
  rw [Process.run_append, Process.run_cons, Process.run_nil]
  split
  · rename_i h
    have hstep : answering (answering.run s ps).1 p = _ := answer_of_due h
    rw [hstep, List.append_nil]
  · rename_i h
    have hstep : answering (answering.run s ps).1 p = _ := answer_of_not_due h
    rw [hstep, List.append_nil, List.append_nil]

/-- **The stamp that a stream keeps is that of its latest report.** -/
theorem last_run (s : FieldStream) (ps : List (Poll α)) :
    (answering.run s ps).1.last =
      (((answering.run s ps).2.getLast?).map Poll.stamp).getD s.last := by
  induction ps using List.reverseRecOn with
  | nil => rfl
  | append_singleton ps p ih =>
    rw [run_concat]
    split
    · simp [mark]
    · exact ih

/-- A report has been made, and the next one is not due yet. -/
def Waits (interval : ℕ) (made : List (Poll α)) (now : UInt64) : Prop :=
  ∃ r ∈ made.getLast?, r.stamp ≠ never ∧ now.toNat < r.stamp.toNat + interval

section
variable [Scalar α] {rate : α}

theorem isDue_after_iff (h : (new rate).interval ≠ 0) (ps : List (Poll α)) (now : UInt64) :
    (answering.run (new rate) ps).1.isDue now = true ↔
      ¬ Waits (new rate).interval.toNat (reports rate ps) now := by
  have hinterval := interval_run (new rate) ps
  have hlast := last_run (new rate) ps
  rw [isDue_iff (by rwa [hinterval]), hinterval, hlast, reports, Waits]
  cases (answering.run (new rate) ps).2.getLast? with
  | none => simp [new]
  | some r =>
    simp only [Option.map_some, Option.getD_some, Option.mem_some_iff, exists_eq_left', ne_eq,
      not_and, not_lt]
    exact Decidable.or_iff_not_imp_left

theorem reports_concat_of_waits (h : (new rate).interval ≠ 0) {ps : List (Poll α)} {p : Poll α}
    (hwaits : Waits (new rate).interval.toNat (reports rate ps) p.stamp) :
    reports rate (ps ++ [p]) = reports rate ps := by
  have hdue := mt (isDue_after_iff h ps p.stamp).mp (not_not.mpr hwaits)
  rw [reports, run_concat, if_neg hdue, reports]

theorem reports_concat_of_not_waits (h : (new rate).interval ≠ 0) {ps : List (Poll α)} {p : Poll α}
    (hready : ¬ Waits (new rate).interval.toNat (reports rate ps) p.stamp) :
    reports rate (ps ++ [p]) = reports rate ps ++ [p] := by
  have hdue := (isDue_after_iff h ps p.stamp).mpr hready
  rw [reports, run_concat, if_pos hdue, reports]

/-- The first poll is answered. -/
theorem head?_reports (h : (new rate).interval ≠ 0) (ps : List (Poll α)) :
    (reports rate ps).head? = ps.head? := by
  cases ps with
  | nil => rfl
  | cons p ps =>
    have hdue : (new rate).isDue p.stamp = true := isDue_of_never h rfl p.stamp
    rw [reports, Process.run_cons, answering, answer_of_due hdue]
    rfl

/-- Two successive reports are an interval apart, unless the first one is forgotten. -/
theorem isChain_reports (h : (new rate).interval ≠ 0) (ps : List (Poll α)) :
    (reports rate ps).IsChain fun r r' =>
      r.stamp ≠ never → r.stamp.toNat + (new rate).interval.toNat ≤ r'.stamp.toNat := by
  induction ps using List.reverseRecOn with
  | nil => exact .nil
  | append_singleton ps p ih =>
    by_cases hwaits : Waits (new rate).interval.toNat (reports rate ps) p.stamp
    · rwa [reports_concat_of_waits h hwaits]
    · rw [reports_concat_of_not_waits h hwaits]
      refine ih.append (.singleton p) ?_
      intro r hr r' hr' hstamp
      obtain rfl : p = r' := Option.some.inj hr'
      by_contra hsoon
      exact hwaits ⟨r, hr, hstamp, not_le.mp hsoon⟩

/-- A stream that is off reports nothing. -/
theorem reports_of_disabled (h : (new rate).interval = 0) (ps : List (Poll α)) :
    reports rate ps = [] := by
  induction ps using List.reverseRecOn with
  | nil => rfl
  | append_singleton ps p ih =>
    have hinterval := (interval_run (new rate) ps).trans h
    have hdue : ¬ (answering.run (new rate) ps).1.isDue p.stamp = true := by
      simp [isDue_of_interval_eq_zero hinterval]
    rw [reports, run_concat, if_neg hdue]
    exact ih

end

/-! ## Rates in binary32 -/

/-- A rate that turns a stream on. -/
def IsRate (rate : Float32) : Prop := rate.isFinite = true ∧ 0.0 < rate

/-- The whole microseconds between two reports: at least one, and at most the largest word. -/
noncomputable def period (rate : Float32) : ℕ :=
  if (1000000.0 / rate).isFinite then max 1 (min ⌊toReal (1000000.0 / rate)⌋₊ (2 ^ 64 - 1))
  else 2 ^ 64 - 1

theorem unpack_million : unpack 1000000.0 = .finite .positive 16000000 (-4) (by norm_num) := rfl

/-- The quotient by a rate overflows to an infinity at worst. -/
theorem toNat_toUInt64_quotient {rate : Float32} (h : IsRate rate) :
    (1000000.0 / rate).toUInt64.toNat =
      if (1000000.0 / rate).isFinite then min ⌊toReal (1000000.0 / rate)⌋₊ (2 ^ 64 - 1)
      else 2 ^ 64 - 1 := by
  obtain ⟨hfin, hpositive⟩ := h
  have hpos : 0 < toReal rate := by
    rwa [lt_iff (x := 0.0) rfl hfin] at hpositive
  have hmillion : 0 ≤ toReal 1000000.0 := by
    rw [toReal, unpack_million, value, signFactor]
    positivity
  have hrounds := rounds_div (x := 1000000.0) rfl hfin hpos.ne'
  split
  · rename_i hquotient
    exact toNat_toUInt64 hquotient
  · rename_i hquotient
    cases hrounds with
    | stored hfinite _ => exact absurd hfinite hquotient
    | tooLarge r _ _ hinfinity => exact toNat_toUInt64_infinity hinfinity
    | tooSmall r hnearest hsmall _ =>
      have hnonneg := hnearest.nonneg (div_nonneg hmillion hpos.le)
      norm_num at hsmall
      linarith

/-- The interval of a rate. -/
theorem toNat_interval_new {rate : Float32} (h : IsRate rate) :
    (new rate).interval.toNat = period rate := by
  have hinterval : (new rate).interval =
      if (1000000.0 / rate).toUInt64 = 0 then 1 else (1000000.0 / rate).toUInt64 := by
    have htest : (Scalar.isFinite rate && decide (0.0 < rate)) = true :=
      Bool.and_eq_true_iff.mpr ⟨h.1, decide_eq_true h.2⟩
    rw [new, intervalOfRate, if_pos htest]
    rfl
  have hword := toNat_toUInt64_quotient h
  have hclamp : (new rate).interval.toNat = max 1 (1000000.0 / rate).toUInt64.toNat := by
    rw [hinterval]
    split
    · rename_i hzero
      rw [hzero]
      rfl
    · rename_i hne
      have hpos : (1000000.0 / rate).toUInt64.toNat ≠ 0 := fun h0 => hne (UInt64.toNat_inj.mp h0)
      omega
  rw [hclamp, hword, period]
  split
  · rfl
  · rfl

theorem interval_new_ne_zero {rate : Float32} (h : IsRate rate) : (new rate).interval ≠ 0 := by
  intro hzero
  have hperiod := toNat_interval_new h
  rw [hzero, UInt64.toNat_zero, period] at hperiod
  split at hperiod <;> omega

theorem interval_new_of_not_rate {rate : Float32} (h : ¬ IsRate rate) :
    (new rate).interval = 0 := by
  have htest : ¬ (Scalar.isFinite rate && decide (0.0 < rate)) = true := by
    rw [Bool.and_eq_true_iff, decide_eq_true_eq]
    exact h
  rw [new, intervalOfRate, if_neg htest]

/-- How the reports of a rate keep apart over a list of polls. -/
structure Paced (rate : Float32) (ps : List (Poll Float32)) : Prop where
  /-- The first poll is answered. -/
  first : (reports rate ps).head? = ps.head?
  /-- Of two successive reports the second comes a period after the first one, unless the first was
  made at the largest stamp. -/
  spaced : (reports rate ps).IsChain fun r r' =>
    r.stamp ≠ never → r.stamp.toNat + period rate ≤ r'.stamp.toNat
  /-- One more poll is answered as it was made, or not at all. -/
  answers : ∀ p, reports rate (ps ++ [p]) = reports rate ps ∨
    reports rate (ps ++ [p]) = reports rate ps ++ [p]
  /-- It is refused if and only if it comes less than a period after the latest report, and this was
  not made at the largest stamp. -/
  refuses : ∀ p, reports rate (ps ++ [p]) = reports rate ps ↔
    ∃ r ∈ (reports rate ps).getLast?, r.stamp ≠ never ∧
      p.stamp.toNat < r.stamp.toNat + period rate

/-- **Reports keep the pace of their rate**, at whatever times a new stream is polled, and no report
is made without a rate. -/
theorem paced_of_rate (rate : Float32) (ps : List (Poll Float32)) :
    (IsRate rate → Paced rate ps) ∧ (¬ IsRate rate → reports rate ps = []) := by
  refine ⟨?_, fun h => reports_of_disabled (interval_new_of_not_rate h) ps⟩
  intro h
  have hne := interval_new_ne_zero h
  have hperiod := toNat_interval_new h
  refine ⟨head?_reports hne ps, ?_, ?_, ?_⟩
  · rw [← hperiod]
    exact isChain_reports hne ps
  · intro p
    by_cases hwaits : Waits (new rate).interval.toNat (reports rate ps) p.stamp
    · exact .inl (reports_concat_of_waits hne hwaits)
    · exact .inr (reports_concat_of_not_waits hne hwaits)
  · intro p
    rw [← hperiod]
    constructor
    · intro hrefused
      by_contra hready
      rw [reports_concat_of_not_waits hne hready] at hrefused
      exact List.cons_ne_nil _ _ (List.append_right_eq_self.mp hrefused)
    · intro hwaits
      exact reports_concat_of_waits hne hwaits

/-- Polls of some field. -/
def pollsAt (stamps : List UInt64) : List (Poll Float32) := stamps.map fun t => ⟨t, .zero⟩

/-- Two reports per second, on a clock that steps back once. -/
theorem paced_two_hertz : IsRate 2.0 ∧
    (reports 2.0 (pollsAt [1000000, 1250000, 1499999, 1500000, 0])).map Poll.stamp =
      [1000000, 1500000] ∧
    Paced 2.0 (pollsAt [1000000, 1250000, 1499999, 1500000, 0]) := by
  have hrate : IsRate 2.0 := ⟨rfl, by decide +kernel⟩
  exact ⟨hrate, by decide +kernel, (paced_of_rate 2.0 _).1 hrate⟩

/-- A report at the largest stamp is forgotten: a second poll at the same time is answered as well,
although no time has passed. -/
theorem largest_stamp_is_forgotten : IsRate 2.0 ∧
    (reports 2.0 (pollsAt [never, never])).map Poll.stamp = [never, never] ∧
    ¬ ((reports 2.0 (pollsAt [never, never])).map Poll.stamp).IsChain fun t t' =>
      t.toNat + period 2.0 ≤ t'.toNat := by
  have hrate : IsRate 2.0 := ⟨rfl, by decide +kernel⟩
  have hstamps : (reports 2.0 (pollsAt [never, never])).map Poll.stamp = [never, never] := by
    decide +kernel
  have hinterval : (new (2.0 : Float32)).interval = 500000 := by decide +kernel
  have hperiod : period 2.0 = 500000 := by
    rw [← toNat_interval_new hrate, hinterval]
    rfl
  refine ⟨hrate, hstamps, ?_⟩
  rw [hstamps, List.isChain_pair, hperiod]
  omega

end FieldStream
end Attitude
