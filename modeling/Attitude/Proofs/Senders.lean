import Attitude.Proofs.Averages
import Attitude.Proofs.Schedule

/-!
# Other senders do not interfere

A session that has chosen a sender is not disturbed by the others. Take any samples of other senders
out of a list of events: what is published, what a board shows and how the estimator ends stay the
same, for a session that handles the events and for a tracker that aligns itself on the way.

A sample of another sender is the identity on a session. It is not the identity on a tracker, whose
rate limiter reads the stamp of every event. But the averages that the monitor inserts are the same
with and without it, so the tracker is compared through the session that is told the averages.

## Main definitions

* `Event.isForeign`: a sample of another sender
* `Thinned`: a list of events without some of the samples of other senders
-/

namespace Attitude
variable {α : Type} {id : UInt8}

/-- A raw sample of another sender than `id`. Averages have no sender. -/
def Event.isForeign (id : UInt8) : Event α → Bool
  | .gyro sender _ _ => sender != id
  | .accel sender _ _ => sender != id
  | .mag sender _ _ => sender != id
  | .averaged _ _ => false

/-- The second list is the first one without some, all or none of the samples of other senders. -/
inductive Thinned (id : UInt8) : List (Event α) → List (Event α) → Prop
  | nil : Thinned id [] []
  | keep {es fs : List (Event α)} (e : Event α) (rest : Thinned id es fs) :
      Thinned id (e :: es) (e :: fs)
  | drop {es fs : List (Event α)} (e : Event α) (foreign : e.isForeign id = true)
      (rest : Thinned id es fs) : Thinned id (e :: es) fs

theorem Thinned.append_left {es fs : List (Event α)} (h : Thinned id es fs) :
    ∀ ds : List (Event α), Thinned id (ds ++ es) (ds ++ fs)
  | [] => h
  | d :: ds => .keep d (h.append_left ds)

variable [Scalar α]

namespace Session
variable {s : Session α} {e : Event α} {es fs : List (Event α)}

/-! ## One sample of another sender -/

omit [Scalar α] in
theorem not_accepts_of_ne (hs : s.sender = some id) {sender : UInt8} (h : (sender != id) = true) :
    s.accepts sender = false := by
  rw [← Bool.not_eq_true, accepts_iff, hs]
  rintro (hnone | hsome)
  · cases hnone
  · rw [Option.some.inj hsome] at h
    exact absurd h (by simp)

/-- A sample of another sender does nothing to a session. -/
theorem handle_foreign (hs : s.sender = some id) (he : e.isForeign id = true) :
    s.handle e = (s, []) := by
  cases e with
  | gyro sender stamp rate => rw [handle, not_accepts_of_ne hs he]; rfl
  | accel sender stamp force => rw [handle, not_accepts_of_ne hs he]; rfl
  | mag sender stamp field => rw [handle, not_accepts_of_ne hs he]; rfl
  | averaged stamp readings => cases he

/-- Nor does the monitor beside the session hear it. -/
theorem expand_foreign (hs : s.sender = some id) (he : e.isForeign id = true)
    (m : Stillness.Monitor α) : s.expand m e = ([e], m) := by
  have hraw : s.isAcceptedRaw e = false := by
    cases e with
    | gyro sender stamp rate => exact not_accepts_of_ne hs he
    | accel sender stamp force => exact not_accepts_of_ne hs he
    | mag sender stamp field => exact not_accepts_of_ne hs he
    | averaged stamp readings => rfl
  have hlisten : s.listen m e = (m, none) := by
    rw [listen, hraw, Bool.and_false]
    rfl
  rw [expand_of_none (by rw [hlisten]), hlisten]

/-! ## Lists of events -/

theorem sender_run (es : List (Event α)) : (process.run s es).1.sender = s.sender :=
  (run_history s es).1.sender

theorem run_thinned (h : Thinned id es fs) (hs : s.sender = some id) :
    process.run s fs = process.run s es := by
  induction h generalizing s with
  | nil => rfl
  | keep e rest ih =>
    rw [Process.run_cons, Process.run_cons]
    have hsender : (process s e).1.sender = some id := (sameSettings_handle s e).sender.trans hs
    rw [ih hsender]
  | drop e foreign rest ih =>
    have hstep : process s e = (s, []) := handle_foreign hs foreign
    rw [Process.run_cons, hstep, ih hs]
    rfl

/-- The averages that are inserted do not depend on samples of other senders. -/
theorem thinned_insertAverages (h : Thinned id es fs) (hs : s.sender = some id)
    (m : Stillness.Monitor α) :
    Thinned id (s.insertAverages m es) (s.insertAverages m fs) := by
  induction h generalizing s m with
  | nil => exact .nil
  | keep e rest ih =>
    rw [insertAverages, insertAverages]
    exact (ih ((sender_run _).trans hs) _).append_left _
  | drop e foreign rest ih =>
    have hstep : process s e = (s, []) := handle_foreign hs foreign
    rw [insertAverages, expand_foreign hs foreign, Process.run_cons, hstep]
    exact .drop e foreign (ih hs m)

end Session

/-! ## Noninterference -/

/-- The board that has received what a new tracker publishes over a list of events. -/
def Tracker.board (c : Session.Config α) (es : List (Event α)) : Board α :=
  Board.empty.publishAll (Tracker.published c es)

/-- Two lists of events cannot be told apart by what a tracker or a session makes of them. -/
structure Indistinguishable (c : Session.Config α) (es fs : List (Event α)) : Prop where
  /-- A new tracker publishes the same over both, shows the same, and its estimator ends in the same
  state. -/
  published : Tracker.published c fs = Tracker.published c es
  board : Tracker.board c fs = Tracker.board c es
  estimator : (Tracker.run c fs).1.session.estimator = (Tracker.run c es).1.session.estimator
  /-- A session with the chosen sender, whatever it has handled before, publishes the same over both
  and ends in the same state. -/
  session : ∀ s : Session α, s.sender = c.sender →
    Session.process.run s fs = Session.process.run s es

/-- **Other senders do not interfere** with a session or a tracker that has chosen one. -/
theorem indistinguishable_of_thinned {c : Session.Config α} (hc : c.sender = some id)
    {es fs : List (Event α)} (h : Thinned id es fs) : Indistinguishable c es fs := by
  have hnew : (Session.new c).sender = some id := hc
  have hinserted := Session.run_thinned
    (Session.thinned_insertAverages h hnew (.new c.stillness)) hnew
  have hsimulates (ds : List (Event α)) := Tracker.run_simulates (Session.new c)
    (Session.new c).fieldStream (.new c.stillness) ds
  simp only [Session.withStream_fieldStream] at hsimulates
  have hpublished : Tracker.published c fs = Tracker.published c es := by
    calc Tracker.published c fs = _ := (hsimulates fs).2
      _ = _ := by rw [hinserted]
      _ = Tracker.published c es := (hsimulates es).2.symm
  refine ⟨hpublished, ?_, ?_, ?_⟩
  · rw [Tracker.board, hpublished]
    rfl
  · obtain ⟨⟨stream, monitor, hfs⟩, -⟩ := hsimulates fs
    obtain ⟨⟨stream', monitor', hes⟩, -⟩ := hsimulates es
    have hfs : (Tracker.run c fs).1 = _ := hfs
    have hes : (Tracker.run c es).1 = _ := hes
    rw [hfs, hes, hinserted]
    rfl
  · intro s hs
    exact Session.run_thinned h (hs.trans hc)

/-- A specific force of another sender, which would otherwise close the window that aligns, and a
gyro sample of another sender, whose stamp would otherwise be noted. -/
theorem indistinguishable_of_thinned_window :
    let c : Session.Config Float32 :=
      { Session.Config.default with sender := some 3, stillness := ⟨1, 1.0, 1⟩ }
    let es : List (Event Float32) := [.gyro 3 5 .zero, .accel 7 6 .zero,
      .mag 3 7 Estimator.defaultField, .accel 3 8 gravityReference, .gyro 7 9 .zero,
      .gyro 3 1005 .zero]
    let fs : List (Event Float32) := [.gyro 3 5 .zero, .mag 3 7 Estimator.defaultField,
      .accel 3 8 gravityReference, .gyro 3 1005 .zero]
    c.sender = some 3 ∧ Thinned 3 es fs ∧ Indistinguishable c es fs ∧
      (Tracker.published c fs).length = 2 := by
  have hthinned : Thinned (α := Float32) 3 [.gyro 3 5 .zero, .accel 7 6 .zero,
      .mag 3 7 Estimator.defaultField, .accel 3 8 gravityReference, .gyro 7 9 .zero,
      .gyro 3 1005 .zero] [.gyro 3 5 .zero, .mag 3 7 Estimator.defaultField,
      .accel 3 8 gravityReference, .gyro 3 1005 .zero] :=
    .keep _ (.drop _ rfl (.keep _ (.keep _ (.drop _ rfl (.keep _ .nil)))))
  exact ⟨rfl, hthinned, indistinguishable_of_thinned rfl hthinned, by decide +kernel⟩

end Attitude
