import Attitude.Proofs.Calls
import Attitude.Proofs.Schedule

/-!
# The time that a session integrates

With measured timing a gyro sample integrates the time since the stamp noted last, and every accepted
sample is noted, late ones too. So what is integrated are intervals between consecutive stamps. As
long as no stamp goes back these intervals lie one after the other. A late stamp is skipped and then
measured from: the intervals on its two sides may overlap, and the integrated time exceeds the spread
of the stamps by no more than the stamps went back.

## Main definitions

* `Session.Span`: an interval of stamps
* `Session.spans`: the intervals that a session integrates over a list of events
* `Session.setbacks`: by how much a list of stamps goes back
-/

namespace Attitude
namespace Session

/-- The stamps after `start`, up to and including `stop`. -/
structure Span where
  start : UInt64
  stop : UInt64
  lt : start < stop
  deriving DecidableEq

namespace Span

def Contains (i : Span) (stamp : UInt64) : Prop := i.start < stamp ∧ stamp ≤ i.stop

/-- No stamp is in both. -/
def Apart (i j : Span) : Prop := ∀ stamp, i.Contains stamp → ¬ j.Contains stamp

/-- In microseconds. -/
def length (i : Span) : ℕ := i.stop.toNat - i.start.toNat

/-- Spans one of which ends before the other begins are apart. -/
theorem apart_of_le {i j : Span} (h : i.stop ≤ j.start) : i.Apart j := by
  rintro stamp ⟨-, hi⟩ ⟨hj, -⟩
  exact absurd (UInt64.lt_of_lt_of_le hj (UInt64.le_trans hi h)) (UInt64.lt_irrefl _)

end Span

/-- By how much the stamps of a list go back, summed over all steps. -/
def setbacks : List UInt64 → ℕ
  | a :: b :: stamps => (a.toNat - b.toNat) + setbacks (b :: stamps)
  | _ => 0

variable {α : Type} [Scalar α]

/-- The span that a session integrates on an event: from the stamp noted last to that of a gyro
sample that is published. -/
def span? (s : Session α) (e : Event α) : Option Span :=
  match e, s.lastGyro with
  | .gyro _ stamp _, some last =>
    if h : last < stamp ∧ (s.handle e).2.isEmpty = false then some ⟨last, stamp, h.1⟩ else none
  | _, _ => none

/-- The spans that a session integrates over a list of events. -/
def spans (s : Session α) : List (Event α) → List Span
  | [] => []
  | e :: es => (s.span? e).toList ++ spans (s.handle e).1 es

/-- The time that is integrated, in microseconds. -/
def integrated (s : Session α) (es : List (Event α)) : ℕ := ((s.spans es).map Span.length).sum

omit [Scalar α] in
/-- The stamps of the accepted gyro samples in a list of events, after the one noted last. -/
def stamps (s : Session α) (es : List (Event α)) : List UInt64 :=
  s.lastGyro.toList ++ es.filterMap s.gyroStamp?

/-! ## One event -/

section
variable {s : Session α} {e : Event α} {es : List (Event α)}

/-- A gyro sample that is published with measured timing has propagated the estimator over the time
since the stamp noted last. -/
theorem handle_gyro_of_measured {sender : UInt8} {stamp : UInt64} {rate : Vec3 α}
    (htiming : s.timing = .measured) (h : (s.handle (.gyro sender stamp rate)).2 ≠ []) :
    s.accepts sender = true ∧ ∃ last, s.lastGyro = some last ∧ last < stamp ∧
      s.estimator.propagate? rate (seconds (stamp - last)) =
        some (s.handle (.gyro sender stamp rate)).1.estimator ∧
      (s.handle (.gyro sender stamp rate)).2.map Publication.stamp = [stamp] := by
  have haccepts : s.accepts sender = true := by
    by_contra haccepts
    rw [handle, if_neg haccepts] at h
    exact h rfl
  refine ⟨haccepts, ?_⟩
  rw [handle, if_pos haccepts, handleGyro] at h ⊢
  dsimp only at h ⊢
  split at h
  · rename_i hrun
    rw [if_pos hrun]
    split at h
    · exact absurd rfl h
    · rename_i estimator hpropagate
      obtain ⟨dt, hinterval, hdt⟩ := Option.bind_eq_some_iff.mp hpropagate
      simp only [interval?, htiming] at hinterval
      split at hinterval
      · cases hinterval
      · rename_i last hlast
        split at hinterval
        · rename_i hlt
          split at hinterval
          · cases hinterval
          · obtain rfl := Option.some.inj hinterval
            exact ⟨last, hlast, hlt, hdt, rfl⟩
        · cases hinterval
  · exact absurd rfl h

/-- A gyro sample that is not published leaves the estimator alone. -/
theorem handle_gyro_of_silent {sender : UInt8} {stamp : UInt64} {rate : Vec3 α}
    (h : (s.handle (.gyro sender stamp rate)).2 = []) :
    (s.handle (.gyro sender stamp rate)).1.estimator = s.estimator := by
  rw [handle] at h ⊢
  split
  · rename_i haccepts
    rw [if_pos haccepts, handleGyro] at h
    rw [handleGyro]
    dsimp only at h ⊢
    split at h
    · rename_i hrun
      rw [if_pos hrun]
      split at h
      · rfl
      · cases h
    · rename_i hwait
      rw [if_neg hwait]
  · rfl

/-- A span ends at the stamp of an accepted gyro sample and begins at the one noted before. -/
theorem span?_eq_some {i : Span} (h : s.span? e = some i) :
    s.gyroStamp? e = some i.stop ∧ s.lastGyro = some i.start := by
  simp only [span?] at h
  split at h
  · rename_i sender stamp rate last hlast
    split at h
    · rename_i hpublishes
      obtain rfl := Option.some.inj h
      refine ⟨?_, hlast⟩
      by_cases haccepts : s.accepts sender = true
      · rw [gyroStamp?, if_pos haccepts]
      · rw [handle, if_neg haccepts] at hpublishes
        cases hpublishes.2
    · cases h
  · cases h

theorem span?_eq_none (h : s.gyroStamp? e = none ∨ s.lastGyro = none) : s.span? e = none := by
  cases hspan : s.span? e with
  | none => rfl
  | some i =>
    obtain ⟨hstop, hstart⟩ := span?_eq_some hspan
    rw [hstop, hstart] at h
    rcases h with h | h <;> cases h

/-- What a running session with measured timing publishes on an event is stamped with the end of the
span that it integrates. -/
theorem map_stamp_handle (hrun : s.estimator.isRunning = true) (htiming : s.timing = .measured)
    (e : Event α) :
    (s.handle e).2.map Publication.stamp = (s.span? e).toList.map Span.stop := by
  by_cases hsilent : (s.handle e).2 = []
  · have hnone : s.span? e = none := by
      simp only [span?]
      split
      · refine dif_neg ?_
        rw [hsilent]
        rintro ⟨-, ⟨⟩⟩
      · rfl
    rw [hsilent, hnone]
    rfl
  · cases e with
    | gyro sender stamp rate =>
      obtain ⟨-, last, hlast, hlt, -, hstamp⟩ := handle_gyro_of_measured htiming hsilent
      have hspan : s.span? (.gyro sender stamp rate) = some ⟨last, stamp, hlt⟩ := by
        simp only [span?, hlast]
        exact dif_pos ⟨hlt, by simpa using hsilent⟩
      rw [hstamp, hspan]
      rfl
    | accel sender stamp force =>
      rw [handle] at hsilent
      split at hsilent <;> exact absurd rfl hsilent
    | mag sender stamp field =>
      rw [handle] at hsilent
      split at hsilent <;> exact absurd rfl hsilent
    | averaged stamp readings =>
      simp only [handle, align, Estimator.align, if_pos hrun] at hsilent
      exact absurd rfl hsilent

/-! ## The stamps of a list of events -/

omit [Scalar α] in
theorem stamps_of_some {last : UInt64} (h : s.lastGyro = some last) (es : List (Event α)) :
    s.stamps es = last :: es.filterMap s.gyroStamp? := by
  rw [stamps, h]
  rfl

/-- An event that is no accepted gyro sample adds no stamp. -/
theorem stamps_cons_of_none (h : s.gyroStamp? e = none) (es : List (Event α)) :
    (s.handle e).1.lastGyro = s.lastGyro ∧ s.stamps (e :: es) = (s.handle e).1.stamps es := by
  have hlast : (s.handle e).1.lastGyro = s.lastGyro := by
    rw [lastGyro_handle, h]
    rfl
  refine ⟨hlast, ?_⟩
  rw [stamps, stamps, List.filterMap_cons_none h, hlast, (sameSettings_handle s e).gyroStamp?]

/-- An accepted gyro sample is noted. -/
theorem stamps_cons_of_some {stamp : UInt64} (h : s.gyroStamp? e = some stamp)
    (es : List (Event α)) :
    (s.handle e).1.lastGyro = some stamp ∧
      s.stamps (e :: es) = s.lastGyro.toList ++ (s.handle e).1.stamps es := by
  have hlast : (s.handle e).1.lastGyro = some stamp := by
    rw [lastGyro_handle, h]
    rfl
  refine ⟨hlast, ?_⟩
  rw [stamps_of_some hlast, stamps, List.filterMap_cons_some h,
    (sameSettings_handle s e).gyroStamp?]

/-- The stamps that are left after an event are the last ones. -/
theorem stamps_handle_suffix (s : Session α) (e : Event α) (es : List (Event α)) :
    (s.handle e).1.stamps es <:+ s.stamps (e :: es) := by
  cases h : s.gyroStamp? e with
  | none => rw [(stamps_cons_of_none h es).2]
  | some stamp => rw [(stamps_cons_of_some h es).2]; exact List.suffix_append _ _

/-- A span reaches from one stamp to the next. -/
theorem infix_stamps_of_mem_spans {i : Span} (h : i ∈ s.spans es) :
    [i.start, i.stop] <:+: s.stamps es := by
  induction es generalizing s with
  | nil => cases h
  | cons e es ih =>
    rw [spans, List.mem_append, Option.mem_toList] at h
    rcases h with h | h
    · obtain ⟨hstop, hstart⟩ := span?_eq_some h
      obtain ⟨hlast, hstamps⟩ := stamps_cons_of_some hstop es
      rw [hstamps, stamps_of_some hlast, hstart]
      exact List.IsPrefix.isInfix (List.prefix_append [i.start, i.stop] _)
    · exact (ih h).trans (stamps_handle_suffix s e es).isInfix

/-! ## Runs -/

theorem spans_append (s : Session α) (es fs : List (Event α)) :
    s.spans (es ++ fs) = s.spans es ++ (process.run s es).1.spans fs := by
  induction es generalizing s with
  | nil => rfl
  | cons e es ih =>
    rw [List.cons_append, spans, spans, ih, List.append_assoc]
    rfl

/-- A running session with measured timing stays one. -/
theorem measured_run (hrun : s.estimator.isRunning = true) (htiming : s.timing = .measured)
    (es : List (Event α)) : (process.run s es).1.estimator.isRunning = true ∧
      (process.run s es).1.timing = .measured := by
  refine ⟨?_, (run_history s es).1.timing.trans htiming⟩
  exact Process.run_invariant process (fun t => t.estimator.isRunning = true)
    (fun t e ht => (served t (.handle e)).isRunning ht) hrun es

/-- The stamps of what is published are the ends of the spans. -/
theorem map_stamp_run (hrun : s.estimator.isRunning = true) (htiming : s.timing = .measured)
    (es : List (Event α)) :
    (process.run s es).2.map Publication.stamp = (s.spans es).map Span.stop := by
  induction es generalizing s with
  | nil => rfl
  | cons e es ih =>
    obtain ⟨hrun', htiming'⟩ := measured_run hrun htiming [e]
    rw [Process.run_cons, spans, List.map_append, List.map_append]
    exact congrArg₂ (· ++ ·) (map_stamp_handle hrun htiming e) (ih hrun' htiming')

/-- While no stamp goes back, a span begins at or after the end of every earlier one. -/
theorem pairwise_spans (h : (s.stamps es).Pairwise (· ≤ ·)) :
    (s.spans es).Pairwise fun i j => i.stop ≤ j.start := by
  induction es generalizing s with
  | nil => exact .nil
  | cons e es ih =>
    have hlater := h.sublist (stamps_handle_suffix s e es).sublist
    rw [spans, List.pairwise_append]
    refine ⟨?_, ih hlater, ?_⟩
    · cases s.span? e <;> simp
    · intro i hi j hj
      obtain ⟨hlast, -⟩ := stamps_cons_of_some (span?_eq_some (Option.mem_toList.mp hi)).1 es
      have hj : j.start ∈ (s.handle e).1.stamps es :=
        (infix_stamps_of_mem_spans hj).subset List.mem_cons_self
      rw [stamps_of_some hlast] at hj hlater
      rcases List.mem_cons.mp hj with heq | hmem
      · rw [heq]
        exact UInt64.le_refl _
      · exact (List.pairwise_cons.mp hlater).1 _ hmem

theorem integrated_cons (s : Session α) (e : Event α) (es : List (Event α)) :
    s.integrated (e :: es) =
      ((s.span? e).toList.map Span.length).sum + (s.handle e).1.integrated es := by
  rw [integrated, spans, List.map_append, List.sum_append]
  rfl

/-- The time that is integrated from a noted stamp on. It grows by at most the advance of the stamps,
and what they go back makes up for the rest. -/
theorem integrated_add_le {last hi : UInt64} (hlast : s.lastGyro = some last)
    (hle : ∀ stamp ∈ s.stamps es, stamp ≤ hi) :
    s.integrated es + last.toNat ≤ hi.toNat + setbacks (s.stamps es) := by
  induction es generalizing s last with
  | nil =>
    rw [stamps_of_some hlast] at hle ⊢
    have hlast := UInt64.le_iff_toNat_le.mp (hle last List.mem_cons_self)
    simpa [integrated, spans, setbacks] using hlast
  | cons e es ih =>
    have hle' : ∀ stamp ∈ (s.handle e).1.stamps es, stamp ≤ hi := fun stamp h =>
      hle stamp ((stamps_handle_suffix s e es).subset h)
    cases hstamp : s.gyroStamp? e with
    | none =>
      obtain ⟨hnext, hstamps⟩ := stamps_cons_of_none hstamp es
      rw [integrated_cons, span?_eq_none (.inl hstamp), hstamps]
      simpa using ih (hnext.trans hlast) hle'
    | some stamp =>
      obtain ⟨hnext, hstamps⟩ := stamps_cons_of_some hstamp es
      have hlater := ih hnext hle'
      rw [hlast, stamps_of_some hnext] at hstamps
      rw [stamps_of_some hnext] at hlater
      rw [integrated_cons, hstamps]
      change _ ≤ hi.toNat + ((last.toNat - stamp.toNat) + setbacks (stamp :: _))
      cases hspan : s.span? e with
      | none =>
        simp only [Option.toList_none, List.map_nil, List.sum_nil]
        omega
      | some i =>
        obtain ⟨hstop, hstart⟩ := span?_eq_some hspan
        obtain rfl := Option.some.inj (hstamp.symm.trans hstop)
        obtain rfl := Option.some.inj (hlast.symm.trans hstart)
        have hlt := UInt64.lt_iff_toNat_lt.mp i.lt
        simp only [Option.toList_some, List.map_cons, List.map_nil, List.sum_singleton, Span.length]
        omega

/-- The integrated time is within the spread of the stamps and what they go back. -/
theorem integrated_le {lo hi : UInt64} (h : ∀ stamp ∈ s.stamps es, lo ≤ stamp ∧ stamp ≤ hi) :
    s.integrated es ≤ (hi.toNat - lo.toNat) + setbacks (s.stamps es) := by
  induction es generalizing s with
  | nil => exact Nat.zero_le _
  | cons e es ih =>
    cases hlast : s.lastGyro with
    | some last =>
      have hbound := integrated_add_le hlast fun stamp hstamp => (h stamp hstamp).2
      have hmem : last ∈ s.stamps (e :: es) := by
        rw [stamps_of_some hlast]
        exact List.mem_cons_self
      have hlo := UInt64.le_iff_toNat_le.mp (h last hmem).1
      have hhi := UInt64.le_iff_toNat_le.mp (h last hmem).2
      omega
    | none =>
      -- Nothing is integrated before a stamp has been noted.
      have hstamps : s.stamps (e :: es) = (s.handle e).1.stamps es := by
        cases hstamp : s.gyroStamp? e with
        | none => exact (stamps_cons_of_none hstamp es).2
        | some stamp => rw [(stamps_cons_of_some hstamp es).2, hlast]; rfl
      rw [hstamps] at h ⊢
      rw [integrated_cons, span?_eq_none (.inr hlast)]
      simpa using ih h

/-! ## No time twice -/

/-- A session integrates no time twice over a list of events. -/
structure IntegratesOnce (s : Session α) (es : List (Event α)) : Prop where
  apart : (s.spans es).Pairwise Span.Apart
  /-- The stamps of what is published increase. -/
  increasing : ((process.run s es).2.map Publication.stamp).Pairwise (· < ·)
  /-- What is integrated is at most the spread of the stamps. -/
  within : ∀ lo hi, (∀ stamp ∈ s.stamps es, lo ≤ stamp ∧ stamp ≤ hi) →
    s.integrated es ≤ hi.toNat - lo.toNat

theorem setbacks_eq_zero {stamps : List UInt64} (h : stamps.Pairwise (· ≤ ·)) :
    setbacks stamps = 0 := by
  induction stamps with
  | nil => rfl
  | cons a stamps ih =>
    obtain ⟨hle, hlater⟩ := List.pairwise_cons.mp h
    cases stamps with
    | nil => rfl
    | cons b stamps =>
      have hab := UInt64.le_iff_toNat_le.mp (hle b List.mem_cons_self)
      change (a.toNat - b.toNat) + setbacks (b :: stamps) = 0
      rw [ih hlater]
      omega

/-- While no stamp goes back, no time is integrated twice. -/
theorem integratesOnce (hrun : s.estimator.isRunning = true) (htiming : s.timing = .measured)
    (h : (s.stamps es).Pairwise (· ≤ ·)) : s.IntegratesOnce es where
  apart := (pairwise_spans h).imp Span.apart_of_le
  increasing := by
    rw [map_stamp_run hrun htiming, List.pairwise_map]
    exact (pairwise_spans h).imp fun {i j} hij => UInt64.lt_of_le_of_lt hij j.lt
  within := by
    intro lo hi hbounds
    have hle := integrated_le hbounds
    rwa [setbacks_eq_zero h] at hle

/-- A gyro sample is integrated over the span of its event, or not at all. -/
structure IntegratesSpan (s : Session α) (e : Event α) : Prop where
  integrates : ∀ i, s.span? e = some i → ∃ sender rate, e = .gyro sender i.stop rate ∧
    s.estimator.propagate? rate (seconds (i.stop - i.start)) = some (s.handle e).1.estimator
  skips : s.span? e = none → ∀ sender stamp rate, e = .gyro sender stamp rate →
    (s.handle e).1.estimator = s.estimator

theorem integratesSpan (hrun : s.estimator.isRunning = true) (htiming : s.timing = .measured)
    (e : Event α) : s.IntegratesSpan e where
  integrates := by
    intro i hi
    have hpublishes : (s.handle e).2.map Publication.stamp = [i.stop] := by
      rw [map_stamp_handle hrun htiming, hi]
      rfl
    cases e with
    | gyro sender stamp rate =>
      have hne : (s.handle (.gyro sender stamp rate)).2 ≠ [] := by
        intro hsilent
        rw [hsilent] at hpublishes
        cases hpublishes
      obtain ⟨-, last, hlast, -, hpropagate, hstamp⟩ := handle_gyro_of_measured htiming hne
      obtain rfl : stamp = i.stop := List.singleton_inj.mp (hstamp.symm.trans hpublishes)
      obtain rfl : last = i.start := Option.some.inj (hlast.symm.trans (span?_eq_some hi).2)
      exact ⟨sender, rate, rfl, hpropagate⟩
    | accel _ _ _ => cases (span?_eq_some hi).1
    | mag _ _ _ => cases (span?_eq_some hi).1
    | averaged _ _ => cases (span?_eq_some hi).1
  skips := by
    rintro hnone sender stamp rate rfl
    have hsilent : (s.handle (.gyro sender stamp rate)).2 = [] := by
      have hmap := map_stamp_handle hrun htiming (.gyro sender stamp rate)
      rw [hnone] at hmap
      exact List.map_eq_nil_iff.mp hmap
    exact handle_gyro_of_silent hsilent

/-- What a session integrates over a list of events: spans between consecutive stamps, one for each
publication, and no time twice except where a stamp goes back. -/
structure OnSpans (s : Session α) (es : List (Event α)) : Prop where
  consecutive : ∀ i ∈ s.spans es, [i.start, i.stop] <:+: s.stamps es
  events : ∀ earlier e later, es = earlier ++ e :: later →
    (process.run s earlier).1.IntegratesSpan e
  published : (process.run s es).2.map Publication.stamp = (s.spans es).map Span.stop
  /-- The spans of a stretch of the events stand between those of the others. -/
  parts : ∀ earlier stretch later, es = earlier ++ stretch ++ later →
    s.spans es = s.spans earlier ++ (process.run s earlier).1.spans stretch ++
      (process.run s (earlier ++ stretch)).1.spans later
  /-- Every stretch of the events in which no stamp goes back. -/
  once : ∀ earlier stretch later, es = earlier ++ stretch ++ later →
    ((process.run s earlier).1.stamps stretch).Pairwise (· ≤ ·) →
    (process.run s earlier).1.IntegratesOnce stretch
  within : ∀ lo hi, (∀ stamp ∈ s.stamps es, lo ≤ stamp ∧ stamp ≤ hi) →
    s.integrated es ≤ (hi.toNat - lo.toNat) + setbacks (s.stamps es)

/-- **Time is integrated twice only where a stamp goes back.** A running session with measured timing
propagates its estimator over spans between consecutive accepted stamps and publishes their ends. In
every stretch of the events in which no stamp goes back the spans are apart, the published stamps
increase, and no more is integrated than the spread of the stamps. Over all events the excess is at
most what the stamps go back. -/
theorem onSpans (s : Session α) (hrun : s.estimator.isRunning = true)
    (htiming : s.timing = .measured) (es : List (Event α)) : s.OnSpans es where
  consecutive := fun _ => infix_stamps_of_mem_spans
  events := by
    intro earlier e later _
    obtain ⟨hrun', htiming'⟩ := measured_run hrun htiming earlier
    exact integratesSpan hrun' htiming' e
  published := map_stamp_run hrun htiming es
  parts := by
    intro earlier stretch later hes
    rw [hes, spans_append, spans_append]
  once := by
    intro earlier stretch later _ hordered
    obtain ⟨hrun', htiming'⟩ := measured_run hrun htiming earlier
    exact integratesOnce hrun' htiming' hordered
  within := fun _ _ => integrated_le

end

/-- The session of the default configuration, once it is aligned at rest. -/
def atRest : Session Float32 :=
  ((new .default).handle (.averaged 0 ⟨.zero, gravityReference, Estimator.defaultField⟩)).1

theorem isRunning_atRest : atRest.estimator.isRunning = true := by decide +kernel

theorem timing_atRest : atRest.timing = .measured := (sameSettings_handle _ _).timing

/-- Gyro samples of a vehicle at rest, the third of which is late. -/
def lateSample : List (Event Float32) :=
  [.gyro 0 10000 .zero, .gyro 0 20000 .zero, .gyro 0 5000 .zero, .gyro 0 15000 .zero]

/-- The late sample is skipped, and its neighbours are integrated. -/
theorem onSpans_lateSample : atRest.estimator.isRunning = true ∧ atRest.timing = .measured ∧
    atRest.OnSpans lateSample :=
  ⟨isRunning_atRest, timing_atRest, onSpans atRest isRunning_atRest timing_atRest lateSample⟩

/-- The spans on the two sides of a late sample overlap: their time is integrated twice, it exceeds
the spread of the stamps, and the published stamps go back. -/
theorem late_sample_integrates_time_twice :
    atRest.estimator.isRunning = true ∧ atRest.timing = .measured ∧
    atRest.stamps lateSample = [10000, 20000, 5000, 15000] ∧
    ¬ (atRest.spans lateSample).Pairwise Span.Apart ∧
    atRest.integrated lateSample = 20000 ∧
    (process.run atRest lateSample).2.map Publication.stamp = [20000, 15000] := by
  have hspans : atRest.spans lateSample =
      [⟨10000, 20000, by decide⟩, ⟨5000, 15000, by decide⟩] := by decide +kernel
  refine ⟨isRunning_atRest, timing_atRest, by decide +kernel, ?_, ?_, ?_⟩
  · rw [hspans]
    intro hapart
    have hapart := (List.pairwise_cons.mp hapart).1 _ List.mem_cons_self
    exact hapart 12000 ⟨by decide, by decide⟩ ⟨by decide, by decide⟩
  · rw [integrated, hspans]
    rfl
  · rw [map_stamp_run isRunning_atRest timing_atRest, hspans]
    rfl

end Session
end Attitude
