import Attitude.Proofs.Restart

/-!
# What stamps can influence

A stamp reaches the estimate on one way only: as the interval between two gyro samples. So the
estimates do not change when stamps are replaced and these intervals stay. With a fixed frequency
that is any replacement. With measured timing it is a common delay of all events, and every change
to the stamps of the events that are no gyro samples. What is published carries the stamp of the
event it is published on, whatever that is.

Two runs over events that differ in their stamps only are compared step by step. Between the steps
the sessions agree in everything but the noted gyro stamps, which are related in the way that the
events are, and the field streams, which the estimate does not read.

## Main definitions

* `Event.Restamped`: the same events with other stamps
* `Tracker.bodies`: the bodies that a tracker publishes, event by event
* `Tracker.StampEffects`: all that stamps can do to a list of events
-/

namespace Attitude
variable {α : Type}

/-- Two events are the same but for their stamps, and if they are gyro samples these are related. -/
inductive Event.Restamped (R : UInt64 → UInt64 → Prop) : Event α → Event α → Prop
  | gyro (sender : UInt8) (rate : Vec3 α) {a b : UInt64} (related : R a b) :
      Restamped R (.gyro sender a rate) (.gyro sender b rate)
  | accel (sender : UInt8) (force : Vec3 α) (a b : UInt64) :
      Restamped R (.accel sender a force) (.accel sender b force)
  | mag (sender : UInt8) (field : Vec3 α) (a b : UInt64) :
      Restamped R (.mag sender a field) (.mag sender b field)
  | averaged (readings : Readings α) (a b : UInt64) :
      Restamped R (.averaged a readings) (.averaged b readings)

/-- The same publication, later by some microseconds. -/
def Publication.delay (us : UInt64) (p : Publication α) : Publication α := ⟨p.body, p.stamp + us⟩

variable [Scalar α] {R : UInt64 → UInt64 → Prop}

namespace Session
variable {s t : Session α} {e f : Event α} {es fs : List (Event α)}

/-! ## Stamps that give the same intervals -/

omit [Scalar α] in
/-- Two sessions agree in all that an estimate depends on, but for the noted stamps. -/
structure Restamped (R : UInt64 → UInt64 → Prop) (s t : Session α) : Prop where
  estimator : t.estimator = s.estimator
  settings : s.SameSettings t
  lastGyro : Option.Rel R s.lastGyro t.lastGyro

omit [Scalar α] in
/-- The estimator and the noted stamp may move on. -/
theorem Restamped.next (h : s.Restamped R t) (estimator : Estimator α) {last last' : Option UInt64}
    (hlast : Option.Rel R last last') :
    Restamped R { s with estimator, lastGyro := last } { t with estimator, lastGyro := last' } :=
  ⟨rfl, ⟨h.settings.sender, h.settings.timing, h.settings.maxGap⟩, hlast⟩

omit [Scalar α] in
/-- So may the field stream. -/
theorem Restamped.withStream (h : s.Restamped R t) (fs gs : FieldStream) :
    (s.withStream fs).Restamped R (t.withStream gs) :=
  ⟨h.estimator, ⟨h.settings.sender, h.settings.timing, h.settings.maxGap⟩, h.lastGyro⟩

/-- With this timing, the interval that is integrated is the same for related stamps. -/
def Timing.Respects (timing : Timing α) (R : UInt64 → UInt64 → Prop) : Prop :=
  ∀ s t : Session α, s.timing = timing → s.Restamped R t →
    ∀ a b, R a b → t.interval? b = s.interval? a

/-- A fixed interval does not depend on stamps. -/
theorem respects_fixed (frequency : α) (R : UInt64 → UInt64 → Prop) :
    (Timing.fixed frequency).Respects R := by
  intro s t htiming h a b _
  rw [interval?, interval?, h.settings.timing, htiming]

/-- A measured interval depends on the order of two stamps and on their difference. -/
theorem respects_of_differences (timing : Timing α)
    (hlt : ∀ a b a' b', R a a' → R b b' → (a' < b' ↔ a < b))
    (hsub : ∀ a b a' b', R a a' → R b b' → b' - a' = b - a) : timing.Respects R := by
  intro s t _ h stamp stamp' hstamp
  have hlast := h.lastGyro
  rw [interval?, interval?, h.settings.timing, h.settings.maxGap]
  generalize s.lastGyro = last at hlast
  generalize t.lastGyro = last' at hlast
  cases hlast with
  | none => rfl
  | some related =>
    simp only [hlt _ _ _ _ related hstamp, hsub _ _ _ _ related hstamp]

theorem respects_eq (timing : Timing α) : timing.Respects Eq := by
  apply respects_of_differences
  · rintro a b _ _ rfl rfl
    exact Iff.rfl
  · rintro a b _ _ rfl rfl
    rfl

/-- A stamp and the same stamp later by some microseconds, when that does not overflow. -/
def Later (us a b : UInt64) : Prop := a.toNat + us.toNat < 2 ^ 64 ∧ b = a + us

theorem Later.toNat {us a b : UInt64} (h : Later us a b) : b.toNat = a.toNat + us.toNat := by
  rw [h.2, UInt64.toNat_add, Nat.mod_eq_of_lt h.1]

theorem respects_later (timing : Timing α) (us : UInt64) : timing.Respects (Later us) := by
  apply respects_of_differences
  · intro a b a' b' ha hb
    rw [UInt64.lt_iff_toNat_lt, UInt64.lt_iff_toNat_lt, ha.toNat, hb.toNat]
    exact Nat.add_lt_add_iff_right
  · intro a b a' b' ha hb
    rw [ha.2, hb.2, add_sub_add_right_eq_sub]

/-! ## One event -/

/-- What is published on an event carries its stamp. -/
theorem stamp_handle (s : Session α) (e : Event α) : ∀ p ∈ (s.handle e).2, p.stamp = e.stamp := by
  have hserved : Served s (.handle e) (s.handle e).1 (s.handle e).2 := served s (.handle e)
  generalize (s.handle e).1 = next at hserved
  generalize (s.handle e).2 = ps at hserved
  intro p hp
  cases hserved with
  | idle estimator => cases hp
  | corrected running output => cases hp
  | propagated sender stamp rate dt call running estimator =>
    obtain rfl := List.mem_singleton.mp hp
    cases call
    rfl
  | aligned stamp readings attempt estimator =>
    obtain rfl := List.mem_singleton.mp hp
    cases e with
    | averaged stamp' readings' => cases attempt; rfl
    | gyro _ _ _ => cases attempt
    | accel _ _ _ => cases attempt
    | mag _ _ _ => cases attempt

theorem restamped_handleGyro (hR : s.timing.Respects R) (h : s.Restamped R t) {a b : UInt64}
    (hab : R a b) (rate : Vec3 α) :
    (s.handleGyro a rate).1.Restamped R (t.handleGyro b rate).1 ∧
      (t.handleGyro b rate).2.map Publication.body =
        (s.handleGyro a rate).2.map Publication.body := by
  have hinterval : t.interval? b = s.interval? a := hR s t rfl h a b hab
  have hnoted : Option.Rel R (some a) (some b) := .some hab
  simp only [handleGyro, h.estimator, hinterval]
  by_cases hrun : s.estimator.isRunning = true
  · simp only [hrun, if_true]
    cases (s.interval? a).bind (s.estimator.propagate? rate) with
    | none => exact ⟨h.next s.estimator hnoted, rfl⟩
    | some estimator => exact ⟨h.next estimator hnoted, rfl⟩
  · rw [if_neg hrun, if_neg hrun]
    exact ⟨h.next s.estimator hnoted, rfl⟩

omit [Scalar α] in
theorem Restamped.accepts (h : s.Restamped R t) (sender : UInt8) :
    t.accepts sender = s.accepts sender := by
  rw [Session.accepts, Session.accepts, h.settings.sender]

/-- The step: other stamps lead to the same estimate and the same bodies. -/
theorem restamped_handle (hR : s.timing.Respects R) (h : s.Restamped R t)
    (he : e.Restamped R f) : (s.handle e).1.Restamped R (t.handle f).1 ∧
      (t.handle f).2.map Publication.body = (s.handle e).2.map Publication.body := by
  cases he with
  | gyro sender rate related =>
    simp only [handle, h.accepts]
    split
    · exact restamped_handleGyro hR h related rate
    · exact ⟨h, rfl⟩
  | accel sender force a b =>
    simp only [handle, handleAccel, h.accepts, h.estimator]
    split
    · split
      · exact ⟨h.next _ h.lastGyro, rfl⟩
      · exact ⟨h, rfl⟩
    · exact ⟨h, rfl⟩
  | mag sender field a b =>
    simp only [handle, handleMag, h.accepts, h.estimator]
    split
    · split
      · exact ⟨h.next _ h.lastGyro, rfl⟩
      · exact ⟨h, rfl⟩
    · exact ⟨h, rfl⟩
  | averaged readings a b =>
    simp only [handle, align, h.estimator]
    cases s.estimator.align readings with
    | error why => exact ⟨h, rfl⟩
    | ok estimator => exact ⟨h.next estimator h.lastGyro, rfl⟩

theorem restamped_run (hR : s.timing.Respects R) (h : s.Restamped R t)
    (hes : List.Forall₂ (Event.Restamped R) es fs) :
    (process.run s es).1.Restamped R (process.run t fs).1 ∧
      (process.run t fs).2.map Publication.body = (process.run s es).2.map Publication.body := by
  induction hes generalizing s t with
  | nil => exact ⟨h, rfl⟩
  | @cons e f es fs he _ ih =>
    obtain ⟨hnext, hnow⟩ := restamped_handle hR h he
    rw [← (sameSettings_handle s e).timing] at hR
    obtain ⟨hend, hlater⟩ := ih hR hnext
    rw [Process.run_cons, Process.run_cons]
    refine ⟨hend, ?_⟩
    rw [List.map_append, List.map_append]
    exact congrArg₂ _ hnow hlater

/-! ## The averages of the monitor -/

theorem Restamped.listen (h : s.Restamped R t) (he : e.Restamped R f) (m : Stillness.Monitor α) :
    t.listen m f = s.listen m e := by
  have haccepted : t.isAcceptedRaw f = s.isAcceptedRaw e := by
    cases he with
    | gyro sender rate related => exact h.accepts sender
    | accel sender force a b => exact h.accepts sender
    | mag sender field a b => exact h.accepts sender
    | averaged readings a b => rfl
  have hhear : m.hear f = m.hear e := by cases he <;> rfl
  rw [Session.listen, Session.listen, h.estimator, haccepted, hhear]

/-- An event is expanded in the same way, whatever its stamp. -/
theorem restamped_expand (hR : s.timing.Respects R) (h : s.Restamped R t)
    (he : e.Restamped R f) (m : Stillness.Monitor α) :
    List.Forall₂ (Event.Restamped R) (s.expand m e).1 (t.expand m f).1 ∧
      (t.expand m f).2 = (s.expand m e).2 := by
  dsimp only [expand]
  rw [h.listen he]
  cases (s.listen m e).2 with
  | none => exact ⟨.cons he .nil, rfl⟩
  | some readings =>
    have hevents : List.Forall₂ (Event.Restamped R) [e, .averaged e.stamp readings]
        [f, .averaged f.stamp readings] := .cons he (.cons (.averaged readings _ _) .nil)
    refine ⟨hevents, ?_⟩
    dsimp only
    rw [(restamped_run hR h hevents).1.estimator]

/-- The events of an expansion have the stamp of the event that is expanded. -/
theorem stamp_expand (s : Session α) (m : Stillness.Monitor α) (e : Event α) :
    ∀ x ∈ (s.expand m e).1, x.stamp = e.stamp := by
  intro x hx
  dsimp only [expand] at hx
  split at hx
  · rw [List.mem_singleton.mp hx]
  · rcases List.mem_pair.mp hx with rfl | rfl <;> rfl

theorem stamp_run {stamp : UInt64} (hes : ∀ e ∈ es, e.stamp = stamp) :
    ∀ p ∈ (process.run s es).2, p.stamp = stamp := by
  induction es generalizing s with
  | nil => exact fun p hp => absurd hp List.not_mem_nil
  | cons e es ih =>
    intro p hp
    rw [Process.run_cons] at hp
    rcases List.mem_append.mp hp with hnow | hlater
    · exact (stamp_handle s e p hnow).trans (hes e List.mem_cons_self)
    · exact ih (fun x hx => hes x (List.mem_cons_of_mem e hx)) p hlater

/-- A running session publishes on gyro samples only. -/
theorem silent_of_running (hrun : s.estimator.isRunning = true)
    (he : ∀ sender stamp rate, e ≠ .gyro sender stamp rate) : (s.handle e).2 = [] := by
  have hserved : Served s (.handle e) (s.handle e).1 (s.handle e).2 := served s (.handle e)
  generalize (s.handle e).1 = next at hserved
  generalize (s.handle e).2 = ps at hserved ⊢
  cases hserved with
  | idle estimator => rfl
  | corrected running output => rfl
  | propagated sender stamp rate dt call running estimator =>
    exact absurd (Call.handle.inj call) (he sender stamp rate)
  | aligned stamp readings attempt estimator =>
    rw [Estimator.isRunning_of_align estimator] at hrun
    cases hrun

/-- A waiting session publishes nothing on an event that leaves it waiting, and one body on an event
that starts it. -/
theorem handle_of_waiting_cases (hwait : s.estimator.isRunning = false) (e : Event α) :
    ((s.handle e).1.estimator.isRunning = false ∧ (s.handle e).2 = []) ∨
    ((s.handle e).1.estimator.isRunning = true ∧ ∃ body, (s.handle e).2 = [⟨body, e.stamp⟩]) := by
  have hserved : Served s (.handle e) (s.handle e).1 (s.handle e).2 := served s (.handle e)
  have hstamp := stamp_handle s e
  generalize (s.handle e).1 = next at hserved ⊢
  generalize (s.handle e).2 = ps at hserved hstamp ⊢
  cases hserved with
  | idle estimator =>
    left
    rw [estimator]
    exact ⟨hwait, rfl⟩
  | corrected running output =>
    rw [hwait] at running
    cases running
  | propagated sender stamp rate dt call running estimator =>
    rw [hwait] at running
    cases running
  | aligned stamp readings attempt estimator =>
    right
    obtain ⟨q, -, hnext⟩ := Estimator.align_eq_ok estimator
    have hsame : stamp = e.stamp := hstamp _ (List.mem_singleton_self _)
    refine ⟨by rw [hnext]; rfl, next.estimator.body, ?_⟩
    rw [hsame]

end Session

/-! ## Trackers -/

namespace Tracker
variable {t u : Tracker α} {e f : Event α} {es fs : List (Event α)}

/-- What a tracker publishes on an event. -/
def publishes (t : Tracker α) (e : Event α) : List (Publication α) :=
  (t.step e).2.filterMap Output.publication?

/-- The bodies that a tracker publishes over a list of events, event by event. -/
def bodies (t : Tracker α) : List (Event α) → List (List (Body α))
  | [] => []
  | e :: es => (t.publishes e).map Publication.body :: bodies (t.step e).1 es

omit [Scalar α] in
/-- Give the bodies of each event its stamp. -/
def stamped (bodies : List (List (Body α))) (es : List (Event α)) : List (Publication α) :=
  (bodies.zipWith (fun bs e => bs.map fun b => ⟨b, e.stamp⟩) es).flatten

omit [Scalar α] in
/-- Two trackers agree in all that an estimate depends on, but for the noted stamps. -/
structure Restamped (R : UInt64 → UInt64 → Prop) (t u : Tracker α) : Prop where
  session : t.session.Restamped R u.session
  monitor : u.monitor = t.monitor

/-- What a tracker publishes on an event is what its session publishes over the expansion. -/
theorem publishes_eq_run (t : Tracker α) (e : Event α) : t.publishes e =
    (Session.process.run t.session (t.session.expand t.monitor e).1).2 := by
  rw [publishes, step_eq_settle, List.filterMap_append, filterMap_attitude, filterMap_pollField,
    List.append_nil, settle_eq_expand]

/-- The session of a tracker takes the same step, but for the field stream. -/
theorem session_step (t : Tracker α) (e : Event α) : ∃ stream, (t.step e).1.session =
    (Session.process.run t.session (t.session.expand t.monitor e).1).1.withStream stream := by
  rw [step_eq_settle, settle_eq_expand]
  exact ⟨_, rfl⟩

theorem timing_step (t : Tracker α) (e : Event α) :
    (t.step e).1.session.timing = t.session.timing := by
  obtain ⟨stream, hsession⟩ := session_step t e
  rw [hsession]
  exact (Session.run_history t.session _).1.timing

theorem stamp_publishes (t : Tracker α) (e : Event α) :
    t.publishes e = ((t.publishes e).map Publication.body).map fun b => ⟨b, e.stamp⟩ := by
  have hstamp : ∀ p ∈ t.publishes e, p.stamp = e.stamp := by
    rw [publishes_eq_run]
    exact Session.stamp_run (Session.stamp_expand _ _ _)
  rw [List.map_map]
  refine (List.map_id' (t.publishes e)).symm.trans (List.map_congr_left ?_)
  intro p hp
  rw [Function.comp_apply, ← hstamp p hp]

theorem filterMap_run_cons (t : Tracker α) (e : Event α) (es : List (Event α)) :
    (process.run t (e :: es)).2.filterMap Output.publication? =
      t.publishes e ++ (process.run (t.step e).1 es).2.filterMap Output.publication? := by
  rw [Process.run_cons, List.filterMap_append]
  rfl

/-- Every publication of a run carries the stamp of its event. -/
theorem run_eq_stamped (t : Tracker α) (es : List (Event α)) :
    (process.run t es).2.filterMap Output.publication? = stamped (t.bodies es) es := by
  induction es generalizing t with
  | nil => rfl
  | cons e es ih =>
    rw [filterMap_run_cons, ih, stamp_publishes, stamped, stamped, bodies, List.zipWith_cons_cons,
      List.flatten_cons]

/-- The step: other stamps lead to the same estimate, the same monitor and the same bodies. -/
theorem restamped_step (hR : t.session.timing.Respects R) (h : t.Restamped R u)
    (he : e.Restamped R f) : (t.step e).1.Restamped R (u.step f).1 ∧
      (u.publishes f).map Publication.body = (t.publishes e).map Publication.body := by
  obtain ⟨stream, hsession⟩ := session_step t e
  obtain ⟨stream', hsession'⟩ := session_step u f
  obtain ⟨hevents, hmonitor⟩ := Session.restamped_expand hR h.session he t.monitor
  obtain ⟨hend, hbodies⟩ := Session.restamped_run hR h.session hevents
  rw [publishes_eq_run, publishes_eq_run, h.monitor]
  refine ⟨⟨?_, ?_⟩, hbodies⟩
  · rw [hsession, hsession', h.monitor]
    exact hend.withStream stream stream'
  · rw [(step_eq_expand t e).1, (step_eq_expand u f).1, h.monitor, hmonitor]

/-- The run: so do whole lists of events. -/
theorem restamped_run (hR : t.session.timing.Respects R) (h : t.Restamped R u)
    (hes : List.Forall₂ (Event.Restamped R) es fs) :
    (process.run t es).1.Restamped R (process.run u fs).1 ∧ u.bodies fs = t.bodies es := by
  induction hes generalizing t u with
  | nil => exact ⟨h, rfl⟩
  | @cons e f es fs he _ ih =>
    obtain ⟨hnext, hnow⟩ := restamped_step hR h he
    have htiming : (t.step e).1.session.timing = t.session.timing := timing_step t e
    rw [← htiming] at hR
    obtain ⟨hend, hlater⟩ := ih hR hnext
    rw [Process.run_cons, Process.run_cons, bodies, bodies, hnow, hlater]
    exact ⟨hend, rfl⟩

/-! ## The publication of the alignment -/

/-- A running tracker publishes on gyro samples only. -/
theorem silent_of_running (hrun : t.session.estimator.isRunning = true)
    (he : ∀ sender stamp rate, e ≠ .gyro sender stamp rate) : t.publishes e = [] := by
  have hheard : (t.session.listen t.monitor e).2 = none := by rw [Session.listen, hrun]; rfl
  have hsilent : (Session.process t.session e).2 = [] := Session.silent_of_running hrun he
  rw [publishes_eq_run, Session.expand_of_none hheard, Process.run_cons, hsilent]
  rfl

/-- When the gyro samples keep their stamps, so does what a running tracker publishes. -/
theorem publishes_of_running (h : t.Restamped Eq u) (he : e.Restamped Eq f)
    (hrun : t.session.estimator.isRunning = true) : u.publishes f = t.publishes e := by
  have hbodies := (restamped_step (Session.respects_eq _) h he).2
  have hrun' : u.session.estimator.isRunning = true := by rw [h.session.estimator]; exact hrun
  cases he with
  | gyro sender rate related =>
    rw [stamp_publishes t, stamp_publishes u, hbodies, related]
  | accel sender force a b =>
    rw [silent_of_running hrun (by simp), silent_of_running hrun' (by simp)]
  | mag sender field a b =>
    rw [silent_of_running hrun (by simp), silent_of_running hrun' (by simp)]
  | averaged readings a b =>
    rw [silent_of_running hrun (by simp), silent_of_running hrun' (by simp)]

/-- A running tracker keeps running. -/
theorem isRunning_step (e : Event α) (hrun : t.session.estimator.isRunning = true) :
    (t.step e).1.session.estimator.isRunning = true := by
  by_contra hwait
  rw [Bool.not_eq_true, (step_eq_expand t e).2] at hwait
  rw [(Session.run_of_waiting hwait).1, hrun] at hwait
  cases hwait

theorem published_of_running (h : t.Restamped Eq u)
    (hes : List.Forall₂ (Event.Restamped Eq) es fs)
    (hrun : t.session.estimator.isRunning = true) :
    (process.run u fs).2.filterMap Output.publication? =
      (process.run t es).2.filterMap Output.publication? := by
  induction hes generalizing t u with
  | nil => rfl
  | @cons e f es fs he _ ih =>
    have hnext := (restamped_step (Session.respects_eq _) h he).1
    rw [filterMap_run_cons, filterMap_run_cons, publishes_of_running h he hrun,
      ih hnext (isRunning_step e hrun)]

/-- The estimator of a tracker starts on the event at a position. -/
structure StartsAt (t : Tracker α) (es : List (Event α)) (k : ℕ) : Prop where
  waits : (process.run t (es.take k)).1.session.estimator.isRunning = false
  runs : (process.run t (es.take (k + 1))).1.session.estimator.isRunning = true

/-- A waiting tracker publishes nothing on an event that leaves it waiting, and one body on the
event that starts it. -/
theorem publishes_of_waiting (hwait : t.session.estimator.isRunning = false) (e : Event α) :
    ((t.step e).1.session.estimator.isRunning = false ∧ t.publishes e = []) ∨
    ((t.step e).1.session.estimator.isRunning = true ∧
      ∃ body, t.publishes e = [⟨body, e.stamp⟩]) := by
  rw [(step_eq_expand t e).2, publishes_eq_run]
  cases hheard : (t.session.listen t.monitor e).2 with
  | none =>
    rw [Session.expand_of_none hheard, Process.run_cons]
    dsimp only [Process.run_nil]
    rw [List.append_nil]
    exact Session.handle_of_waiting_cases hwait e
  | some readings =>
    rcases Session.expand_of_some hheard with ⟨s, p, halign, hrun, -⟩ | ⟨why, -, hrun, -⟩
    · right
      rw [hrun]
      refine ⟨Session.align_ok_isRunning halign, s.estimator.body, ?_⟩
      rw [(Session.align_eq_ok halign).2]
    · left
      rw [hrun]
      exact ⟨hwait, rfl⟩

/-- When the gyro samples keep their stamps, the first publication of a waiting tracker is the only
one whose stamp may change. -/
theorem published_of_waiting (h : t.Restamped Eq u)
    (hes : List.Forall₂ (Event.Restamped Eq) es fs)
    (hwait : t.session.estimator.isRunning = false) :
    ((process.run t es).2.filterMap Output.publication? = [] ∧
      (process.run u fs).2.filterMap Output.publication? = []) ∨
    ∃ (k : ℕ) (hk : k < es.length) (hk' : k < fs.length) (body : Body α)
      (later : List (Publication α)), t.StartsAt es k ∧
      (process.run t es).2.filterMap Output.publication? = ⟨body, es[k].stamp⟩ :: later ∧
      (process.run u fs).2.filterMap Output.publication? = ⟨body, fs[k].stamp⟩ :: later := by
  induction hes generalizing t u with
  | nil => exact .inl ⟨rfl, rfl⟩
  | @cons e f es fs he hrest ih =>
    obtain ⟨hnext, hbodies⟩ := restamped_step (Session.respects_eq _) h he
    rw [filterMap_run_cons, filterMap_run_cons, stamp_publishes u, hbodies]
    rcases publishes_of_waiting hwait e with ⟨hstill, hnone⟩ | ⟨hstarted, body, hone⟩
    · rw [hnone]
      rcases ih hnext hstill with hsilent | ⟨k, hk, hk', body, later, hstarts, hes, hfs⟩
      · exact .inl hsilent
      · right
        refine ⟨k + 1, Nat.succ_lt_succ hk, Nat.succ_lt_succ hk', body, later, ?_, hes, hfs⟩
        exact ⟨hstarts.waits, hstarts.runs⟩
    · right
      rw [hone, published_of_running hnext hrest hstarted]
      exact ⟨0, Nat.zero_lt_succ _, Nat.zero_lt_succ _, body, _, ⟨hwait, hstarted⟩, rfl, rfl⟩

/-! ## What stamps can influence -/

/-- A new tracker makes the same estimates over two lists of events, and what it publishes over the
second one has the bodies of the first and the stamps of the second. -/
structure SameEstimates (c : Session.Config α) (es fs : List (Event α)) : Prop where
  estimator : (run c fs).1.session.estimator = (run c es).1.session.estimator
  bodies : (published c fs).map Publication.body = (published c es).map Publication.body
  published : published c fs = stamped ((new c).bodies es) fs

/-- All that the stamps of a list of events can do. -/
structure StampEffects (c : Session.Config α) (es : List (Event α)) : Prop where
  /-- What is published carries the stamp of the event it is published on. -/
  stamps : published c es = stamped ((new c).bodies es) es
  /-- With a fixed frequency all stamps are free. -/
  fixed : ∀ frequency, c.timing = .fixed frequency → ∀ fs,
    List.Forall₂ (Event.Restamped fun _ _ => True) es fs → SameEstimates c es fs
  /-- A common delay, without overflow, delays what is published. -/
  delayed : ∀ us : UInt64, (∀ e ∈ es, e.stamp.toNat + us.toNat < 2 ^ 64) →
    SameEstimates c es (es.map (.delay us)) ∧
      published c (es.map (.delay us)) = (published c es).map (.delay us)
  /-- The stamps of all events but gyro samples are free. Only the publication of the alignment, if
  there is one, shows the difference. -/
  others : ∀ fs, List.Forall₂ (Event.Restamped Eq) es fs → SameEstimates c es fs ∧
    ((published c es = [] ∧ published c fs = []) ∨
      ∃ (k : ℕ) (hk : k < es.length) (hk' : k < fs.length) (body : Body α)
        (later : List (Publication α)), (new c).StartsAt es k ∧
        published c es = ⟨body, es[k].stamp⟩ :: later ∧
        published c fs = ⟨body, fs[k].stamp⟩ :: later)

/-- A new tracker has noted no stamp. -/
theorem restamped_new (c : Session.Config α) (R : UInt64 → UInt64 → Prop) :
    (new c).Restamped R (new c) :=
  ⟨⟨rfl, .refl _, .none⟩, rfl⟩

theorem map_body_run (t : Tracker α) (es : List (Event α)) :
    ((process.run t es).2.filterMap Output.publication?).map Publication.body =
      (t.bodies es).flatten := by
  induction es generalizing t with
  | nil => rfl
  | cons e es ih =>
    rw [filterMap_run_cons, List.map_append, ih, bodies, List.flatten_cons]

theorem sameEstimates_of_respects {c : Session.Config α} (hR : c.timing.Respects R)
    (hes : List.Forall₂ (Event.Restamped R) es fs) : SameEstimates c es fs := by
  obtain ⟨hend, hbodies⟩ := restamped_run (t := new c) hR (restamped_new c R) hes
  refine ⟨hend.session.estimator, ?_, ?_⟩
  · exact (map_body_run _ _).trans ((congrArg _ hbodies).trans (map_body_run _ _).symm)
  · rw [← hbodies]
    exact run_eq_stamped (new c) fs

omit [Scalar α] in
theorem forall₂_later {us : UInt64} (h : ∀ e ∈ es, e.stamp.toNat + us.toNat < 2 ^ 64) :
    List.Forall₂ (Event.Restamped (Session.Later us)) es (es.map (.delay us)) := by
  rw [List.forall₂_map_right_iff, List.forall₂_same]
  intro e he
  have hfits := h e he
  cases e with
  | gyro sender stamp rate => exact .gyro sender rate ⟨hfits, rfl⟩
  | accel sender stamp force => exact .accel sender force _ _
  | mag sender stamp field => exact .mag sender field _ _
  | averaged stamp readings => exact .averaged readings _ _

omit [Scalar α] in
theorem stamped_map_delay (us : UInt64) (bodies : List (List (Body α))) (es : List (Event α)) :
    stamped bodies (es.map (.delay us)) = (stamped bodies es).map (.delay us) := by
  rw [stamped, stamped, List.zipWith_map_right, List.map_flatten, List.map_zipWith]
  simp only [List.map_map, Event.stamp_delay]
  rfl

/-- **What stamps can influence**: intervals between gyro samples, and the stamps of what is
published. -/
theorem stampEffects_of_events (c : Session.Config α) (es : List (Event α)) :
    StampEffects c es where
  stamps := run_eq_stamped (new c) es
  fixed frequency hfixed fs hes :=
    sameEstimates_of_respects (by rw [hfixed]; exact Session.respects_fixed frequency _) hes
  delayed us hfits := by
    have hsame :=
      sameEstimates_of_respects (Session.respects_later c.timing us) (forall₂_later hfits)
    refine ⟨hsame, ?_⟩
    rw [hsame.published, stamped_map_delay]
    exact congrArg _ (run_eq_stamped (new c) es).symm
  others fs hes :=
    ⟨sameEstimates_of_respects (Session.respects_eq c.timing) hes,
      published_of_waiting (restamped_new c Eq) hes rfl⟩

/-- With measured timing the stamp of a gyro sample is not free: too long a gap is not integrated. -/
example :
    let readings : Readings Float32 := ⟨.zero, gravityReference, Estimator.defaultField⟩
    (published .default [.averaged 0 readings, .gyro 0 5 .zero, .gyro 0 1005 .zero]).length = 2 ∧
    (published .default [.averaged 0 readings, .gyro 0 5 .zero, .gyro 0 1000005 .zero]).length =
      1 := by
  decide +kernel

end Tracker
end Attitude
