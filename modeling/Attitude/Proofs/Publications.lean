import Attitude.Proofs.Calls

/-!
# What a session has published, and what it shows

One attitude is held in three places that are refreshed at different times: the reference of the
estimator, its projected body, and the board that receives the publications. The reference moves
with every correction. The body and the board move together, and only when an alignment or a
propagation publishes: `Session.InStep` says how the three stand to each other after any calls.
-/

namespace Attitude
variable {α : Type} [Scalar α]

namespace Board

/-- A board shows the last of the publications it receives. -/
theorem current_publishAll (b : Board α) (ps : List (Publication α)) :
    (b.publishAll ps).current =
      (ps.getLast?.map fun p => Report.ofBody p.body p.stamp).getD b.current := by
  induction ps using List.reverseRecOn with
  | nil => rfl
  | append_singleton ps p ih =>
    rw [publishAll_append, publishAll_cons, publishAll_nil, List.getLast?_concat]
    rfl

end Board

namespace Session
variable {c : Config α} {cs : List (Call α)}

/-- The board that has received what a new session publishes over a list of calls. -/
def board (c : Config α) (cs : List (Call α)) : Board α := Board.empty.publishAll (log c cs)

/-! ## One call -/

/-- The call at which something is published: an alignment or a gyro sample, with its stamp. -/
def Call.isSource (k : Call α) (stamp : UInt64) : Prop :=
  (∃ readings, k.attempt? = some (stamp, readings)) ∨
    ∃ sender rate, k = .handle (.gyro sender stamp rate)

/-- A call that publishes nothing leaves body and phase alone. -/
theorem Served.of_silent {s t : Session α} {k : Call α} (h : Served s k t []) :
    t.estimator.body = s.estimator.body ∧ t.estimator.phase = s.estimator.phase := by
  cases h with
  | idle estimator => rw [estimator]; exact ⟨rfl, rfl⟩
  | corrected running output => exact ⟨output.body, output.phase⟩

/-- A call that publishes leaves a running estimator, whose body it has just projected, and
publishes that body once. -/
theorem Served.of_publishing {s t : Session α} {k : Call α} {ps : List (Publication α)}
    (h : Served s k t ps) (hne : ps ≠ []) :
    ∃ p, ps = [p] ∧ k.isSource p.stamp ∧ t.estimator.isRunning = true ∧
      t.estimator.IsProjected ∧ t.estimator.body = p.body := by
  cases h with
  | idle estimator => exact absurd rfl hne
  | corrected running output => exact absurd rfl hne
  | propagated sender stamp rate dt call running estimator =>
    obtain ⟨-, -, hphase, hprojected⟩ := Estimator.propagate?_eq_some estimator
    refine ⟨⟨t.estimator.body, stamp⟩, rfl, .inr ⟨sender, rate, call⟩, ?_, hprojected, rfl⟩
    rw [Estimator.isRunning, hphase]
    exact running
  | aligned stamp readings attempt estimator =>
    refine ⟨⟨t.estimator.body, stamp⟩, rfl, .inl ⟨readings, attempt⟩, ?_,
      Estimator.isProjected_of_align estimator, rfl⟩
    obtain ⟨q, -, hg⟩ := Estimator.align_eq_ok estimator
    rw [hg]
    rfl

/-! ## Runs -/

/-- A call of a run publishes nothing, or one body. -/
theorem log_append_cases (c : Config α) (cs : List (Call α)) (k : Call α) :
    (log c (cs ++ [k]) = log c cs ∧
      (after c (cs ++ [k])).estimator.body = (after c cs).estimator.body ∧
      (after c (cs ++ [k])).estimator.phase = (after c cs).estimator.phase) ∨
    ∃ p, log c (cs ++ [k]) = log c cs ++ [p] ∧ k.isSource p.stamp ∧
      (after c (cs ++ [k])).estimator.isRunning = true ∧
      (after c (cs ++ [k])).estimator.IsProjected ∧
      (after c (cs ++ [k])).estimator.body = p.body := by
  have hserved := served (after c cs) k
  rw [log_append_singleton, after_append_singleton]
  generalize ((after c cs).serve k).1 = t, ((after c cs).serve k).2 = ps at hserved ⊢
  by_cases hps : ps = []
  · subst hps
    obtain ⟨hbody, hphase⟩ := hserved.of_silent
    exact .inl ⟨List.append_nil _, hbody, hphase⟩
  · obtain ⟨p, rfl, hsource, hrun, hprojected, hbody⟩ := hserved.of_publishing hps
    exact .inr ⟨p, rfl, hsource, hrun, hprojected, hbody⟩

/-- The estimator runs if and only if something has been published. -/
theorem isRunning_iff_log (c : Config α) (cs : List (Call α)) :
    (after c cs).estimator.isRunning = true ↔ log c cs ≠ [] := by
  induction cs using List.reverseRecOn with
  | nil => exact iff_of_false Bool.false_ne_true (fun h => h rfl)
  | append_singleton cs k ih =>
    obtain ⟨hlog, -, hphase⟩ | ⟨p, hlog, -, hrun, -, -⟩ := log_append_cases c cs k
    · rw [hlog, Estimator.isRunning, hphase]
      exact ih
    · rw [hlog]
      exact iff_of_true hrun (List.concat_ne_nil _ _)

/-- The publication `p` goes back to the call `k`, after which nothing more was published. -/
structure Origin (c : Config α) (cs : List (Call α)) (p : Publication α)
    (earlier : List (Call α)) (k : Call α) (later : List (Call α)) : Prop where
  calls : cs = earlier ++ k :: later
  /-- An alignment or a gyro sample, with the stamp of the publication. -/
  source : k.isSource p.stamp
  /-- It published this and nothing else. -/
  published : log c (earlier ++ [k]) = log c earlier ++ [p]
  /-- The later calls published nothing. -/
  final : log c cs = log c (earlier ++ [k])
  /-- The body is the projection of the attitude and the rate right after that call. -/
  projected : p.body = c.mounting.project (after c (earlier ++ [k])).estimator.attitude
    (after c (earlier ++ [k])).estimator.rate

/-- The last publication is the current body, and has an origin. -/
theorem exists_origin {p : Publication α} (h : (log c cs).getLast? = some p) :
    (after c cs).estimator.body = p.body ∧ ∃ earlier k later, Origin c cs p earlier k later := by
  induction cs using List.reverseRecOn with
  | nil => cases h
  | append_singleton cs k ih =>
    obtain ⟨hlog, hbody, -⟩ | ⟨q, hlog, hsource, -, hprojected, hbody⟩ := log_append_cases c cs k
    · rw [hlog] at h
      obtain ⟨hcurrent, earlier, k', later, horigin⟩ := ih h
      refine ⟨hbody.trans hcurrent, earlier, k', later ++ [k], ?_, horigin.source,
        horigin.published, hlog.trans horigin.final, horigin.projected⟩
      rw [horigin.calls, List.append_assoc, List.cons_append]
    · rw [hlog, List.getLast?_concat] at h
      obtain rfl := Option.some.inj h
      refine ⟨hbody, cs, k, [], rfl, hsource, hlog, rfl, ?_⟩
      rw [← hbody, hprojected, (settings_after c (cs ++ [k])).2]

/-! ## What is shown -/

/-- Everything a consumer sees of the estimator and of the board agrees with the publication `p`. -/
structure Shows (s : Session α) (b : Board α) (p : Publication α) : Prop where
  body : s.estimator.body = p.body
  current : b.current = .ofBody p.body p.stamp
  report : s.estimator.report p.stamp = .ok b.current
  quat : b.quat = p.body.attitude
  rates : b.rates = p.body.rates

/-- An event is not seen by the consumers of a session: nothing is published, and what estimator and
board show stays. -/
structure Unseen (c : Config α) (cs : List (Call α)) (e : Event α) : Prop where
  log : log c (cs ++ [.handle e]) = log c cs
  board : board c (cs ++ [.handle e]) = board c cs
  body : (after c (cs ++ [.handle e])).estimator.body = (after c cs).estimator.body
  running : (after c (cs ++ [.handle e])).estimator.isRunning = (after c cs).estimator.isRunning
  report : ∀ stamp, (after c (cs ++ [.handle e])).estimator.report stamp =
    (after c cs).estimator.report stamp

/-- The estimator, its publications and the board are in step after a list of calls. -/
structure InStep (c : Config α) (cs : List (Call α)) : Prop where
  running_iff : (after c cs).estimator.isRunning = true ↔ log c cs ≠ []
  healthy_iff : (board c cs).isHealthy = true ↔ log c cs ≠ []
  /-- Everything shows the last publication, a body that was projected when it was published. -/
  latest : ∀ p, (log c cs).getLast? = some p → Shows (after c cs) (board c cs) p ∧
    ∃ earlier k later, Origin c cs p earlier k later
  /-- Before the first publication the board is as it was, and there is no report. -/
  silent : log c cs = [] → (board c cs).current = .unhealthy ∧
    ∀ stamp, (after c cs).estimator.report stamp = .error .notInitialized
  /-- Measurements of force and field are not seen, even when they move the reference. -/
  accel : ∀ sender stamp force, Unseen c cs (.accel sender stamp force)
  mag : ∀ sender stamp field, Unseen c cs (.mag sender stamp field)

/-- An event that cannot be a source is not seen. -/
theorem unseen_of_not_source (c : Config α) (cs : List (Call α)) {e : Event α}
    (h : ∀ stamp, ¬ (Call.handle e).isSource stamp) : Unseen c cs e := by
  obtain ⟨hlog, hbody, hphase⟩ | ⟨p, -, hsource, -, -, -⟩ := log_append_cases c cs (.handle e)
  · have hrun : (after c (cs ++ [.handle e])).estimator.isRunning =
        (after c cs).estimator.isRunning := by
      rw [Estimator.isRunning, hphase]
      rfl
    refine ⟨hlog, ?_, hbody, hrun, ?_⟩
    · rw [board, hlog]
      rfl
    · intro stamp
      rw [Estimator.report, hrun, hbody]
      rfl
  · exact absurd hsource (h p.stamp)

/-- A board that received nothing is not healthy, and one that received something is. -/
theorem isHealthy_iff_log (c : Config α) (cs : List (Call α)) :
    (board c cs).isHealthy = true ↔ log c cs ≠ [] := by
  rw [Board.isHealthy, board, Board.current_publishAll]
  cases h : (log c cs).getLast? with
  | none => exact iff_of_false Bool.false_ne_true (fun hne => hne (List.getLast?_eq_none_iff.mp h))
  | some p =>
    refine iff_of_true rfl ?_
    intro hnil
    rw [hnil] at h
    cases h

/-- **Estimator, publications and board never disagree**, whatever a new session is called with. -/
theorem inStep_after (c : Config α) (cs : List (Call α)) : InStep c cs where
  running_iff := isRunning_iff_log c cs
  healthy_iff := isHealthy_iff_log c cs
  latest p hp := by
    obtain ⟨hbody, horigin⟩ := exists_origin hp
    have hcurrent : (board c cs).current = .ofBody p.body p.stamp := by
      rw [board, Board.current_publishAll, hp]
      rfl
    have hrun : (after c cs).estimator.isRunning = true := by
      rw [isRunning_iff_log]
      intro hnil
      rw [hnil] at hp
      cases hp
    refine ⟨⟨hbody, hcurrent, ?_, ?_, ?_⟩, horigin⟩
    · rw [Estimator.report, if_pos hrun, hbody, hcurrent]
    · rw [Board.quat, hcurrent]
      rfl
    · rw [Board.rates, hcurrent]
      rfl
  silent hnil := by
    refine ⟨?_, ?_⟩
    · rw [board, hnil]
      rfl
    · intro stamp
      have hwait : ¬ (after c cs).estimator.isRunning = true := by
        rw [isRunning_iff_log, hnil]
        exact fun h => h rfl
      rw [Estimator.report, if_neg hwait]
  accel sender stamp force := by
    apply unseen_of_not_source
    rintro stamp' (⟨readings, h⟩ | ⟨sender', rate, h⟩) <;> cases h
  mag sender stamp field := by
    apply unseen_of_not_source
    rintro stamp' (⟨readings, h⟩ | ⟨sender', rate, h⟩) <;> cases h

end Session
end Attitude
