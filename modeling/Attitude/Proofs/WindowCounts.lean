import Attitude.Proofs.Detection

/-!
# The counters of the open window

Each sensor has a counter of its samples in the open window, which is a word. Specific forces close
a window before their counter can overflow. Nothing bounds the other two: as long as no specific
force arrives, a window stays open, and its counters are only right up to multiples of `2 ^ 32`. The
first overflow is at the sample that makes a window uncountable, which takes `2 ^ 32` calls. A
counter that has wrapped to zero stands for a silent sensor, and the window is discarded.

## Main definitions

* `Stillness.Monitor.Call`, `Stillness.Monitor.driven`: the calls of a monitor
* `Stillness.Monitor.Overflows`: a call increments a counter that is at its largest value
* `Stillness.Monitor.opened`: the samples in the open window

## Main results

* `Stillness.Monitor.countsSamples`
* `Stillness.Monitor.gyro_count_overflows`: a window whose counter wraps
-/

namespace Attitude.Stillness
variable {α : Type}

/-! ## Samples that can be counted -/

theorem isCountable_nil : IsCountable ([] : List (Sample α)) := by
  have hpos : 0 < UInt32.size := by decide
  exact ⟨hpos, hpos⟩

theorem isCountable_iff {w : List (Sample α)} :
    IsCountable w ↔ (gyros w).length < UInt32.size ∧ (mags w).length < UInt32.size :=
  ⟨fun h => ⟨h.gyros, h.mags⟩, fun h => ⟨h.1, h.2⟩⟩

@[simp] theorem gyros_replicate (n : ℕ) (v : Vec3 α) :
    gyros (List.replicate n (.gyro v)) = List.replicate n v :=
  List.filterMap_replicate_of_some rfl

@[simp] theorem forces_replicate (n : ℕ) (v : Vec3 α) :
    forces (List.replicate n (.gyro v)) = [] :=
  List.filterMap_replicate_of_none rfl

/-- The word that counts `n` samples is the largest one when the next sample cannot be counted. -/
theorem ofNat_eq_last_iff {n : ℕ} (h : n < UInt32.size) :
    UInt32.ofNat n = 0xffffffff ↔ ¬ n + 1 < UInt32.size := by
  have hlast : (0xffffffff : UInt32).toNat = UInt32.size - 1 := rfl
  rw [← UInt32.toNat_inj, UInt32.toNat_ofNat_of_lt' h, hlast]
  omega

/-- The counter of the sensor that a sample comes from. -/
def Window.count (w : Window α) : Sample α → UInt32
  | .gyro _ => w.gyro.count
  | .accel _ => w.accel.count
  | .mag _ => w.mag.count

namespace Monitor

/-! ## Calls -/

/-- A call of a monitor. -/
inductive Call (α : Type) where
  | add (x : Sample α)
  | reset

/-- The call increments a counter that is at its largest value. -/
def Overflows (m : Monitor α) : Call α → Prop
  | .add x => m.status = .collecting ∧ m.window.count x = 0xffffffff
  | .reset => False

theorem overflows_gyro_iff (m : Monitor α) (v : Vec3 α) : m.Overflows (.add (.gyro v)) ↔
    m.status = .collecting ∧ m.window.gyro.count = 0xffffffff := Iff.rfl

/-- The samples in the open window after a call, from those before it. -/
def opens (m : Monitor α) (w : List (Sample α)) : Call α → List (Sample α)
  | .reset => []
  | .add x =>
    if m.status = .locked then w
    else if (forces (w ++ [x])).length < m.config.length then w ++ [x]
    else []

variable [Scalar α]

/-- Carry out a call, and give the averages that are handed out. -/
def serve (m : Monitor α) : Call α → Monitor α × List (Readings α)
  | .add x => m.add x
  | .reset => (m.reset, [])

/-- A monitor as a process from calls to averages. -/
def driven : Process (Monitor α) (Call α) (Readings α) := serve

/-- The monitor after some calls of a new one. -/
def after (c : Config α) (calls : List (Call α)) : Monitor α := (driven.run (new c) calls).1

/-- The samples in the open window after some calls, from those before them. -/
def openWindow (m : Monitor α) (w : List (Sample α)) : List (Call α) → List (Sample α)
  | [] => w
  | call :: calls => openWindow (m.serve call).1 (m.opens w call) calls

/-- The samples in the open window after some calls of a new monitor. -/
def opened (c : Config α) (calls : List (Call α)) : List (Sample α) := openWindow (new c) [] calls

variable {m : Monitor α} {w : List (Sample α)} {c : Config α} {calls : List (Call α)}

/-! ## One call -/

/-- What a call can do to a monitor `m` with the samples `w` in the open window, and to these. -/
inductive Served (m : Monitor α) (w : List (Sample α)) (k : Call α) :
    Monitor α → List (Sample α) → Prop
  /-- The monitor starts afresh. -/
  | reset (call : k = .reset) : Served m w k (new m.config) []
  /-- A locked monitor takes no sample. -/
  | ignored (x : Sample α) (call : k = .add x) (locked : m.status = .locked) : Served m w k m w
  /-- The sample is added to the open window. -/
  | extended (x : Sample α) (call : k = .add x) (collecting : m.status = .collecting)
      (incomplete : (forces (w ++ [x])).length < m.config.length) :
      Served m w k { m with window := .ofSamples (w ++ [x]) } (w ++ [x])
  /-- A specific force completes the window, which is judged. -/
  | closed (v : Vec3 α) (call : k = .add (.accel v)) (collecting : m.status = .collecting)
      (complete : (forces (w ++ [.accel v])).length = m.config.length) :
      Served m w k (m.close (.ofSamples (w ++ [.accel v]))).1 []

/-- The sums of a monitor are those of the samples `w`, which do not complete a window. -/
structure Tracks (m : Monitor α) (w : List (Sample α)) : Prop where
  window : m.window = .ofSamples w
  incomplete : (forces w).length < m.config.length

theorem tracks_new (c : Config α) : (new c).Tracks [] := ⟨rfl, c.length_pos⟩

theorem Tracks.served (h : m.Tracks w) (call : Call α) :
    m.Served w call (m.serve call).1 (m.opens w call) := by
  cases call with
  | reset => exact .reset rfl
  | add x =>
    rw [opens, serve]
    cases hm : m.status with
    | locked =>
      rw [add_of_locked hm, if_pos rfl]
      exact .ignored x rfl hm
    | collecting =>
      rw [if_neg (by decide)]
      by_cases hopen : (forces (w ++ [x])).length < m.config.length
      · rw [add_of_incomplete hm h.window hopen, if_pos hopen]
        exact .extended x rfl hm hopen
      · rw [if_neg hopen]
        -- Only a specific force can complete the window.
        cases x with
        | gyro v => simp [h.incomplete] at hopen
        | mag v => simp [h.incomplete] at hopen
        | accel v =>
          have hcomplete : (forces (w ++ [.accel v])).length = m.config.length := by
            have hincomplete := h.incomplete
            rw [forces_append, List.length_append, forces_accel, List.length_singleton] at hopen ⊢
            omega
          rw [add_of_complete hm h.window hcomplete]
          exact .closed v rfl hm hcomplete

/-- Judging a window opens the next one. -/
theorem close_eq (m : Monitor α) (w : Window α) :
    ∃ quiet status, (m.close w).1 = { m with window := .empty, quiet, status } := by
  rw [close]
  split
  · exact ⟨0, m.status, rfl⟩
  · dsimp only
    generalize (if m.quiet = 0xff then m.quiet else m.quiet + 1) = quiet
    split
    · split
      · exact ⟨quiet, .locked, rfl⟩
      · exact ⟨quiet, m.status, rfl⟩
    · exact ⟨0, m.status, rfl⟩

/-- A call keeps the sums those of the open window. -/
theorem Tracks.serve (h : m.Tracks w) (call : Call α) :
    (m.serve call).1.Tracks (m.opens w call) := by
  have hserved := h.served call
  generalize (m.serve call).1 = n, m.opens w call = w' at hserved ⊢
  cases hserved with
  | reset => exact tracks_new m.config
  | ignored => exact h
  | extended x _ _ incomplete => exact ⟨rfl, incomplete⟩
  | closed v =>
    obtain ⟨quiet, status, hclose⟩ := m.close_eq (.ofSamples (w ++ [.accel v]))
    rw [hclose]
    exact ⟨rfl, m.config.length_pos⟩

/-! ## Overflow of one call -/

/-- The counter of the specific forces never reaches its largest value. -/
theorem Tracks.not_overflows_accel (h : m.Tracks w) (v : Vec3 α) :
    ¬ m.Overflows (.add (.accel v)) := by
  rintro ⟨-, hlast⟩
  have hlt : (forces w).length + 1 < UInt32.size :=
    Nat.lt_of_le_of_lt h.incomplete m.config.length_lt_size
  rw [h.window] at hlast
  exact (ofNat_eq_last_iff (Nat.lt_of_succ_lt hlt)).mp hlast hlt

/-- A sample overflows its counter exactly if it makes the open window uncountable. -/
theorem Tracks.overflows_add_iff (h : m.Tracks w) (hw : IsCountable w)
    (hm : m.status = .collecting) (x : Sample α) :
    m.Overflows (.add x) ↔ ¬ IsCountable (w ++ [x]) := by
  have hcount : m.Overflows (.add x) ↔ (Window.ofSamples w).count x = 0xffffffff := by
    rw [Overflows, h.window]
    exact and_iff_right hm
  rw [isCountable_iff, gyros_append, mags_append, List.length_append, List.length_append]
  cases x with
  | gyro v =>
    rw [hcount]
    refine (ofNat_eq_last_iff hw.gyros).trans (not_congr ?_)
    exact (and_iff_left hw.mags).symm
  | mag v =>
    rw [hcount]
    refine (ofNat_eq_last_iff hw.mags).trans (not_congr ?_)
    exact (and_iff_right hw.gyros).symm
  | accel v => exact iff_of_false (h.not_overflows_accel v) (not_not_intro ⟨hw.gyros, hw.mags⟩)

/-- **A call overflows a counter exactly if it makes the open window uncountable.** -/
theorem Tracks.overflows_iff (h : m.Tracks w) (hw : IsCountable w) (call : Call α) :
    m.Overflows call ↔ ¬ IsCountable (m.opens w call) := by
  have hserved := h.served call
  generalize (m.serve call).1 = n, m.opens w call = w' at hserved
  cases hserved with
  | reset hcall =>
    subst hcall
    exact iff_of_false id (not_not_intro isCountable_nil)
  | ignored x hcall locked =>
    subst hcall
    refine iff_of_false ?_ (not_not_intro hw)
    rintro ⟨hcollecting, -⟩
    rw [locked] at hcollecting
    cases hcollecting
  | extended x hcall collecting incomplete =>
    subst hcall
    exact h.overflows_add_iff hw collecting x
  | closed v hcall collecting complete =>
    subst hcall
    exact iff_of_false (h.not_overflows_accel v) (not_not_intro isCountable_nil)

/-! ## Any number of calls -/

theorem Tracks.run (h : m.Tracks w) (calls : List (Call α)) :
    (driven.run m calls).1.Tracks (openWindow m w calls) := by
  induction calls generalizing m w with
  | nil => exact h
  | cons call calls ih => exact ih (h.serve call)

theorem tracks_after (c : Config α) (calls : List (Call α)) :
    (after c calls).Tracks (opened c calls) := (tracks_new c).run calls

theorem openWindow_append (m : Monitor α) (w : List (Sample α)) (calls more : List (Call α)) :
    openWindow m w (calls ++ more) =
      openWindow (driven.run m calls).1 (openWindow m w calls) more := by
  induction calls generalizing m w with
  | nil => rfl
  | cons call calls ih => exact ih _ _

theorem opened_concat (c : Config α) (calls : List (Call α)) (call : Call α) :
    opened c (calls ++ [call]) = (after c calls).opens (opened c calls) call :=
  openWindow_append ..

/-- A window has at most as many samples as there were calls. -/
theorem length_opened_le (c : Config α) (calls : List (Call α)) :
    (opened c calls).length ≤ calls.length := by
  induction calls using List.reverseRecOn with
  | nil => rfl
  | append_singleton calls call ih =>
    have hserved := (tracks_after c calls).served call
    rw [opened_concat, List.length_append, List.length_singleton]
    generalize ((after c calls).serve call).1 = n, (after c calls).opens (opened c calls) call = w'
      at hserved
    cases hserved with
    | extended x => rw [List.length_append, List.length_singleton]; omega
    | ignored => omega
    | _ => exact Nat.zero_le _

/-- No call overflows a counter. -/
def Fits (c : Config α) (calls : List (Call α)) : Prop :=
  ∀ earlier call, earlier ++ [call] <+: calls → ¬ (after c earlier).Overflows call

/-- No counter overflows exactly if every open window is countable. -/
theorem fits_iff (c : Config α) (calls : List (Call α)) :
    Fits c calls ↔ ∀ earlier, earlier <+: calls → IsCountable (opened c earlier) := by
  constructor
  · intro hfits earlier
    induction earlier using List.reverseRecOn with
    | nil => exact fun _ => isCountable_nil
    | append_singleton earlier call ih =>
      intro hprefix
      have hcountable := ih ((List.prefix_append earlier [call]).trans hprefix)
      have hstep := (tracks_after c earlier).overflows_iff hcountable call
      rw [opened_concat]
      exact not_not.mp (mt hstep.mpr (hfits earlier call hprefix))
  · intro hcountable earlier call hprefix
    have hearlier := hcountable earlier ((List.prefix_append earlier [call]).trans hprefix)
    rw [(tracks_after c earlier).overflows_iff hearlier, ← opened_concat]
    exact not_not_intro (hcountable _ hprefix)

/-- A run of fewer than `2 ^ 32` calls leaves no window time to become uncountable. -/
theorem fits_of_short (h : calls.length < UInt32.size) : Fits c calls := by
  rw [fits_iff]
  intro earlier hprefix
  have hopened := length_opened_le c earlier
  have hlength := hprefix.length_le
  have hgyros : (gyros (opened c earlier)).length ≤ _ := List.length_filterMap_le ..
  have hmags : (mags (opened c earlier)).length ≤ _ := List.length_filterMap_le ..
  exact ⟨by omega, by omega⟩

/-- How the counters stand after some calls of a new monitor. -/
structure CountsSamples (c : Config α) (calls : List (Call α)) : Prop where
  /-- The specific forces of the open window are counted. -/
  accel : (after c calls).window.accel.count.toNat = (forces (opened c calls)).length
  /-- The counters of the other two sensors are right up to multiples of `2 ^ 32`. -/
  gyro : (after c calls).window.gyro.count.toNat = (gyros (opened c calls)).length % UInt32.size
  mag : (after c calls).window.mag.count.toNat = (mags (opened c calls)).length % UInt32.size
  /-- No specific force overflows its counter. -/
  accelFits : ∀ v, ¬ (after c calls).Overflows (.add (.accel v))
  /-- No call has overflown a counter exactly if each open window so far was countable. -/
  fits_iff : Fits c calls ↔ ∀ earlier, earlier <+: calls → IsCountable (opened c earlier)
  /-- So a run that is too short for an uncountable window overflows none. -/
  fits_of_short : calls.length < UInt32.size → Fits c calls

/-- **The counters of a monitor count the samples of the open window**, the specific forces always
and the others while the window is countable. -/
theorem countsSamples (c : Config α) (calls : List (Call α)) : CountsSamples c calls := by
  have h := tracks_after c calls
  refine ⟨?_, ?_, ?_, h.not_overflows_accel, fits_iff c calls, fits_of_short⟩
  · rw [h.window]
    exact UInt32.toNat_ofNat_of_lt' (h.incomplete.trans (Config.length_lt_size _))
  · rw [h.window]
    exact UInt32.toNat_ofNat'
  · rw [h.window]
    exact UInt32.toNat_ofNat'

/-! ## A window that wraps -/

/-- Samples without a reset are taken one by one. -/
theorem run_add (m : Monitor α) (xs : List (Sample α)) :
    driven.run m (xs.map .add) = process.run m xs := by
  induction xs generalizing m with
  | nil => rfl
  | cons x xs ih =>
    rw [List.map_cons, Process.run_cons, Process.run_cons, ih]
    rfl

/-- Samples that do not complete a window stay in it. -/
theorem after_incomplete {xs : List (Sample α)} (h : (forces xs).length < c.length) :
    after c (xs.map .add) = { new c with window := .ofSamples xs } ∧
      opened c (xs.map .add) = xs := by
  have hafter : ∀ ys : List (Sample α), (forces ys).length < c.length →
      after c (ys.map .add) = { new c with window := .ofSamples ys } := by
    intro ys hys
    rw [after, run_add, run_of_incomplete (m := new c) rfl rfl hys]
  refine ⟨hafter xs h, ?_⟩
  induction xs using List.reverseRecOn with
  | nil => rfl
  | append_singleton xs x ih =>
    have hshort : (forces xs).length < c.length := by
      rw [forces_append, List.length_append] at h
      omega
    rw [List.map_append, List.map_singleton, opened_concat, ih hshort, hafter xs hshort, opens,
      if_neg (by rintro ⟨⟩)]
    exact if_pos h

/-- A complete window with a multiple of `2 ^ 32` angular rates is discarded, as if it had none. -/
theorem run_of_wrapped {samples : List (Sample α)} {v : Vec3 α}
    (hforces : (forces (samples ++ [.accel v])).length = c.length)
    (hgyros : UInt32.size ∣ (gyros (samples ++ [.accel v])).length) :
    process.run (new c) (samples ++ [.accel v]) = (new c, []) := by
  obtain ⟨hinside, hlast⟩ := run_of_complete (m := new c) rfl rfl hforces
  have hunheard : (Window.ofSamples (samples ++ [.accel v])).gyro.count = 0 := by
    apply UInt32.toNat_inj.mp
    exact UInt32.toNat_ofNat'.trans (Nat.mod_eq_zero_of_dvd hgyros)
  have haverage : (Window.ofSamples (samples ++ [.accel v])).average? = none :=
    if_pos (.inl hunheard)
  rw [Process.run_append, hinside, Process.run_cons, hlast, close, haverage]
  rfl

/-- Calls with the same angular rate. -/
def gyroCalls (n : ℕ) (v : Vec3 α) : List (Call α) := .replicate n (.add (.gyro v))

/-- Angular rates alone stay in the open window, whose counter wraps. -/
theorem after_gyroCalls (c : Config α) (n : ℕ) (v : Vec3 α) :
    (after c (gyroCalls n v)).status = .collecting ∧
    (after c (gyroCalls n v)).window.gyro.count = .ofNat n ∧
    opened c (gyroCalls n v) = .replicate n (.gyro v) := by
  have hopen : (forces (List.replicate n (.gyro v))).length < c.length := by
    rw [forces_replicate]
    exact c.length_pos
  obtain ⟨hafter, hopened⟩ := after_incomplete hopen
  have hcount : (Window.ofSamples (List.replicate n (.gyro v))).gyro.count =
      .ofNat (gyros (List.replicate n (.gyro v))).length := rfl
  rw [gyros_replicate, List.length_replicate] at hcount
  rw [gyroCalls, ← List.map_replicate, hafter]
  exact ⟨rfl, hcount, hopened⟩

theorem run_gyroCalls_wrapped (h : c.length = 1) {n : ℕ} (hn : UInt32.size ∣ n)
    (rate field force : Vec3 α) :
    driven.run (new c) (gyroCalls n rate ++ [.add (.mag field), .add (.accel force)]) =
      (new c, []) := by
  have hcalls : gyroCalls n rate ++ [.add (.mag field), .add (.accel force)] =
      (.replicate n (.gyro rate) ++ [.mag field] ++ [.accel force] : List (Sample α)).map .add := by
    rw [List.map_append, List.map_append, List.map_replicate, List.append_assoc]
    rfl
  rw [hcalls, run_add]
  apply run_of_wrapped
  · simp only [forces_append, forces_replicate, forces_mag, forces_accel, List.nil_append]
    exact h.symm
  · simpa only [gyros_append, gyros_replicate, gyros_mag, gyros_accel, List.append_nil,
      List.length_replicate] using hn

/-- An angular rate overflows its counter after `2 ^ 32 - 1` others in one window. With one more in
the window the counter is zero, and averages that are handed out after a single rate are lost. -/
theorem gyro_count_overflows :
    let c : Config Float32 := ⟨1, 0.15, 1⟩
    let others : List (Call Float32) := [.add (.mag .zero), .add (.accel .zero)]
    (after c (gyroCalls (UInt32.size - 1) .zero)).Overflows (.add (.gyro .zero)) ∧
    (gyros (opened c (gyroCalls UInt32.size .zero))).length = UInt32.size ∧
    (after c (gyroCalls UInt32.size .zero)).window.gyro.count = 0 ∧
    (driven.run (new c) (gyroCalls UInt32.size .zero ++ others)).2 = [] ∧
    (driven.run (new c) (gyroCalls 1 .zero ++ others)).2.length = 1 := by
  intro c others
  have hshort : c.length = 1 := rfl
  obtain ⟨hstatus, hlast, -⟩ := after_gyroCalls c (UInt32.size - 1) .zero
  obtain ⟨-, hzero, hopened⟩ := after_gyroCalls c UInt32.size .zero
  refine ⟨?_, ?_, ?_, ?_, by decide +kernel⟩
  · rw [overflows_gyro_iff, hlast]
    exact ⟨hstatus, by decide⟩
  · rw [hopened, gyros_replicate, List.length_replicate]
  · rw [hzero]
    decide
  · rw [run_gyroCalls_wrapped hshort (Nat.dvd_refl _)]

end Monitor
end Attitude.Stillness
