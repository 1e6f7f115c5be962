import Attitude.Proofs.Calls

/-!
# The lifecycle of a session

An estimator on its own accepts propagations and corrections before it is aligned. In a session it
does not receive any: whatever a session is called with, its estimator is the new one, to the last
field, until an alignment succeeds. That happens at most once, and no later attempt has an effect.

Positions count calls: the session before the call at position `k` is the one after the first `k`
calls. The invariant is that the estimator is new or running, and `Session.Served` is its step.
-/

namespace Attitude.Session
variable {α : Type} [Scalar α] {c : Config α} {cs : List (Call α)} {j k : ℕ}

/-- The call at a position attempts an alignment, and the session accepts it. -/
def AlignsAt (c : Config α) (cs : List (Call α)) (k : ℕ) : Prop :=
  ∃ stamp readings r, cs[k]?.bind Call.attempt? = some (stamp, readings) ∧
    (after c (cs.take k)).align stamp readings = .ok r

/-- The session after a position is what the call there makes of the session before it. -/
theorem after_take_succ {call : Call α} (h : cs[k]? = some call) :
    after c (cs.take (k + 1)) = ((after c (cs.take k)).serve call).1 := by
  rw [List.take_add_one, h]
  exact after_append_singleton c (cs.take k) call

omit [Scalar α] in
/-- There is no call beyond the list. -/
theorem take_succ_of_none (h : cs[k]? = none) : cs.take (k + 1) = cs.take k := by
  rw [List.take_add_one, h]
  exact List.append_nil _

/-! ## Before an alignment -/

/-- A call that does not align a waiting session leaves its estimator alone. -/
theorem estimator_serve_of_waiting {s : Session α} {call : Call α}
    (hwait : s.estimator.isRunning = false)
    (hrefused : ∀ stamp readings r, call.attempt? = some (stamp, readings) →
      s.align stamp readings ≠ .ok r) :
    (s.serve call).1.estimator = s.estimator := by
  have hserved := served s call
  generalize (s.serve call).1 = t, (s.serve call).2 = ps at hserved ⊢
  cases hserved with
  | idle estimator => exact estimator
  | corrected running output => rw [hwait] at running; cases running
  | propagated sender stamp rate dt hcall running estimator => rw [hwait] at running; cases running
  | aligned stamp readings attempt estimator =>
    have haccepted : s.align stamp readings =
        .ok ({ s with estimator := t.estimator }, ⟨t.estimator.body, stamp⟩) := by
      rw [align, estimator]
      rfl
    exact absurd haccepted (hrefused stamp readings _ attempt)

/-- Until an alignment succeeds, the estimator is the new one. -/
theorem estimator_eq_new (h : ∀ j < k, ¬ AlignsAt c cs j) :
    (after c (cs.take k)).estimator = .new c.estimator c.mounting := by
  induction k with
  | zero => rfl
  | succ k ih =>
    have hnew := ih fun j hj => h j (by omega)
    cases hcall : cs[k]? with
    | none => rw [take_succ_of_none hcall]; exact hnew
    | some call =>
      rw [after_take_succ hcall, ← hnew]
      apply estimator_serve_of_waiting
      · rw [hnew]
        rfl
      · intro stamp readings r hattempt hok
        refine h k (by omega) ⟨stamp, readings, r, ?_, hok⟩
        rw [hcall]
        exact hattempt

/-! ## After an alignment -/

/-- A session that accepts an alignment was waiting. -/
theorem isRunning_of_alignsAt (h : AlignsAt c cs k) :
    (after c (cs.take k)).estimator.isRunning = false := by
  obtain ⟨stamp, readings, r, -, hok⟩ := h
  exact Estimator.isRunning_of_align (align_eq_ok hok).1

/-- An accepted alignment starts the estimator. -/
theorem isRunning_succ_of_alignsAt (h : AlignsAt c cs k) :
    (after c (cs.take (k + 1))).estimator.isRunning = true := by
  obtain ⟨stamp, readings, r, hattempt, hok⟩ := h
  cases hcall : cs[k]? with
  | none => rw [hcall] at hattempt; cases hattempt
  | some call =>
    rw [hcall, Option.bind_some] at hattempt
    rw [after_take_succ hcall]
    obtain ⟨t, p, halign, hserve⟩ | ⟨why, halign, -⟩ :=
      serve_of_attempt (s := after c (cs.take k)) hattempt
    · obtain ⟨q, -, hestimator⟩ := Estimator.align_eq_ok (align_eq_ok halign).1
      rw [hserve, hestimator]
      rfl
    · rw [halign] at hok
      cases hok

/-- A running estimator runs after every later call. -/
theorem isRunning_mono (h : j ≤ k) (hrun : (after c (cs.take j)).estimator.isRunning = true) :
    (after c (cs.take k)).estimator.isRunning = true := by
  induction h with
  | refl => exact hrun
  | @step k _ ih =>
    cases hcall : cs[k]? with
    | none => rw [take_succ_of_none hcall]; exact ih
    | some call => rw [after_take_succ hcall]; exact (served _ call).isRunning ih

theorem isRunning_after_alignsAt (h : AlignsAt c cs j) (hjk : j < k) :
    (after c (cs.take k)).estimator.isRunning = true :=
  isRunning_mono hjk (isRunning_succ_of_alignsAt h)

/-- A session whose estimator runs refuses to align it again. -/
theorem align_of_running {s : Session α} (h : s.estimator.isRunning = true) (stamp : UInt64)
    (readings : Readings α) : s.align stamp readings = .error .alreadyRunning := by
  rw [align, Estimator.align, if_pos h]
  rfl

/-- An attempt to align a running session has no effect. -/
theorem serve_attempt_of_running {s : Session α} {call : Call α} {stamp : UInt64}
    {readings : Readings α} (h : s.estimator.isRunning = true)
    (hattempt : call.attempt? = some (stamp, readings)) : s.serve call = (s, []) := by
  have hrefused := align_of_running h stamp readings
  obtain ⟨t, p, halign, -⟩ | ⟨why, -, hserve⟩ := serve_of_attempt (s := s) hattempt
  · rw [hrefused] at halign
    cases halign
  · exact hserve

/-! ## The whole run -/

/-- The lifecycle of a new session over a list of calls. -/
structure Lifecycle (c : Config α) (cs : List (Call α)) : Prop where
  /-- Until an alignment succeeds, every field of the estimator is as it was created. -/
  waits : ∀ k, (∀ j < k, ¬ AlignsAt c cs j) →
    (after c (cs.take k)).estimator = .new c.estimator c.mounting
  /-- At most one alignment succeeds. -/
  once : ∀ j k, AlignsAt c cs j → AlignsAt c cs k → j = k
  /-- From then on the estimator runs. -/
  runs : ∀ j k, AlignsAt c cs j → j < k → (after c (cs.take k)).estimator.phase = .running
  /-- Every later attempt is refused for this reason, changes nothing and publishes nothing. -/
  refuses : ∀ j k call stamp readings, AlignsAt c cs j → j < k → cs[k]? = some call →
    call.attempt? = some (stamp, readings) →
    (after c (cs.take k)).align stamp readings = .error .alreadyRunning ∧
      (after c (cs.take k)).serve call = (after c (cs.take k), [])
  /-- Configuration and mounting are those of the session's configuration. -/
  settings : ∀ k, (after c (cs.take k)).estimator.config = c.estimator ∧
    (after c (cs.take k)).estimator.mounting = c.mounting

/-- **Every session has the lifecycle**: new, aligned at most once, then running. -/
theorem lifecycle_of_calls (c : Config α) (cs : List (Call α)) : Lifecycle c cs where
  waits _ h := estimator_eq_new h
  once j k hj hk := by
    -- The later of two alignments would find a running estimator.
    rcases Nat.lt_trichotomy j k with hlt | heq | hgt
    · have hrun := isRunning_after_alignsAt hj hlt
      rw [isRunning_of_alignsAt hk] at hrun
      cases hrun
    · exact heq
    · have hrun := isRunning_after_alignsAt hk hgt
      rw [isRunning_of_alignsAt hj] at hrun
      cases hrun
  runs j k hj hjk := by
    have hrun := isRunning_after_alignsAt hj hjk
    rwa [Estimator.isRunning, beq_iff_eq] at hrun
  refuses j k call stamp readings hj hjk hcall hattempt := by
    have hrun := isRunning_after_alignsAt hj hjk
    exact ⟨align_of_running hrun stamp readings, serve_attempt_of_running hrun hattempt⟩
  settings k := settings_after c (cs.take k)

end Attitude.Session
