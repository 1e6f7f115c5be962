import Attitude.Binary32
import Attitude.Proofs.Process
import Attitude.Proofs.Windows

/-!
# A stillness monitor finds the first long run of quiet windows

The monitor keeps sums and counts of one open window, and the length of the current run of quiet
windows. Over a history that is cut into windows, these are the sums of the samples since the last
cut and the run that the windows end with, until a window ends a run of the length asked for. The
averages of that window are handed out at its last sample, and nothing changes any more.

The steps follow the cut: a sample inside a window, the sample that completes it, and the list of
windows.
-/

namespace Attitude.Stillness
variable {α : Type} [Scalar α]

/-! ## Sums of samples -/

/-- The sum and the number of a list of vectors. The number is a word, and wraps. -/
def Total.ofList (vs : List (Vec3 α)) : Total α := ⟨vs.foldl (· + ·) .zero, .ofNat vs.length⟩

theorem Total.ofList_concat (vs : List (Vec3 α)) (v : Vec3 α) :
    ofList (vs ++ [v]) = (ofList vs).add v := by
  simp [ofList, add, UInt32.ofNat_add]

theorem Total.count_eq_zero_iff {vs : List (Vec3 α)} (h : vs.length < UInt32.size) :
    (ofList vs).count = 0 ↔ vs = [] := by
  rw [← List.length_eq_zero_iff, ← UInt32.toNat_inj, ofList, UInt32.toNat_ofNat_of_lt' h,
    UInt32.toNat_zero]

theorem Total.size_ofList {vs : List (Vec3 α)} (h : vs.length < UInt32.size) :
    (ofList vs).size = numberOf vs := by
  have hword : (UInt32.ofNat vs.length).toUInt64 = .ofNat vs.length := by
    apply UInt64.toNat_inj.mp
    rw [UInt32.toNat_toUInt64, UInt32.toNat_ofNat_of_lt' h, UInt64.toNat_ofNat_of_lt']
    exact h.trans (by decide)
  rw [size, numberOf, ofList, hword]

theorem Total.mean_ofList {vs : List (Vec3 α)} (h : vs.length < UInt32.size) :
    (ofList vs).mean = meanOf vs := by
  rw [mean, size_ofList h]
  rfl

/-- The sums of the samples of one window. -/
def Window.ofSamples (xs : List (Sample α)) : Window α where
  gyro := .ofList (gyros xs)
  accel := .ofList (forces xs)
  mag := .ofList (mags xs)
  normSum := (forces xs).foldl (fun sum v => sum + v.norm) 0.0
  squareSum := (forces xs).foldl (fun sum v => sum + v.norm * v.norm) 0.0

namespace Window

theorem ofSamples_gyro (xs : List (Sample α)) (v : Vec3 α) :
    ofSamples (xs ++ [.gyro v]) = { ofSamples xs with gyro := (ofSamples xs).gyro.add v } := by
  simp [ofSamples, Total.ofList_concat]

theorem ofSamples_mag (xs : List (Sample α)) (v : Vec3 α) :
    ofSamples (xs ++ [.mag v]) = { ofSamples xs with mag := (ofSamples xs).mag.add v } := by
  simp [ofSamples, Total.ofList_concat]

theorem ofSamples_accel (xs : List (Sample α)) (v : Vec3 α) :
    ofSamples (xs ++ [.accel v]) = (ofSamples xs).addAccel v := by
  simp [ofSamples, addAccel, Total.ofList_concat]

variable {w : List (Sample α)}

theorem normVariance_ofSamples (h : (forces w).length < UInt32.size) :
    (ofSamples w).normVariance = normVarianceOf (forces w) := by
  have hsize : (ofSamples w).accel.size = numberOf (forces w) := Total.size_ofList h
  simp only [normVariance, hsize]
  rfl

/-- The averages exist when every sensor has been heard. -/
theorem average?_ofSamples (hw : IsCountable w) (hpos : 0 < (forces w).length)
    (hlt : (forces w).length < UInt32.size) :
    (ofSamples w).average? = if gyros w = [] ∨ mags w = [] then none else some (averages w) := by
  have hforces : forces w ≠ [] := List.length_pos_iff.mp hpos
  have hgyro := Total.count_eq_zero_iff hw.gyros
  have haccel := Total.count_eq_zero_iff hlt
  have hmag := Total.count_eq_zero_iff hw.mags
  simp only [average?, ofSamples, hgyro, haccel, hmag, hforces, false_or, averages,
    Total.mean_ofList hw.gyros, Total.mean_ofList hlt, Total.mean_ofList hw.mags]

end Window

/-! ## One sample -/

namespace Monitor

/-- Take one raw sample, and give the averages that are handed out. -/
def add (m : Monitor α) : Sample α → Monitor α × List (Readings α)
  | .gyro v => (m.addGyro v, [])
  | .mag v => (m.addMag v, [])
  | .accel v => ((m.addAccel v).1, (m.addAccel v).2.toList)

/-- A monitor as a process from raw samples to averages. -/
def process : Process (Monitor α) (Sample α) (Readings α) := add

/-- A locked monitor takes no sample. -/
theorem add_of_locked {m : Monitor α} (h : m.status = .locked) (x : Sample α) :
    m.add x = (m, []) := by
  cases x <;> simp [add, addGyro, addMag, addAccel, h]

theorem run_of_locked {m : Monitor α} (h : m.status = .locked) (xs : List (Sample α)) :
    process.run m xs = (m, []) := by
  induction xs with
  | nil => rfl
  | cons x xs ih =>
    have hstep : process m x = (m, []) := add_of_locked h x
    rw [Process.run_cons, hstep, ih]
    rfl

omit [Scalar α] in
theorem toNat_windowLength (m : Monitor α) : m.windowLength.toNat = m.config.length := by
  rw [windowLength, Config.length]
  split
  · rename_i h
    rw [h]
    rfl
  · rename_i h
    have hpos : m.config.windowSamples.toNat ≠ 0 := fun h0 => h (UInt32.toNat_inj.mp h0)
    rw [Nat.max_eq_left (Nat.pos_of_ne_zero hpos)]

variable {m : Monitor α} {w xs : List (Sample α)}

/-- A collecting monitor adds a sample that does not complete the window. -/
theorem add_of_incomplete (hm : m.status = .collecting) (hw : m.window = .ofSamples xs)
    {x : Sample α} (h : (forces (xs ++ [x])).length < m.config.length) :
    m.add x = ({ m with window := .ofSamples (xs ++ [x]) }, []) := by
  cases x with
  | gyro v => simp [add, addGyro, hm, hw, Window.ofSamples_gyro]
  | mag v => simp [add, addMag, hm, hw, Window.ofSamples_mag]
  | accel v =>
    have hcount : (Window.ofSamples (xs ++ [.accel v])).accel.count < m.windowLength := by
      rw [UInt32.lt_iff_toNat_lt, toNat_windowLength]
      exact (UInt32.toNat_ofNat_of_lt' (h.trans (Config.length_lt_size _))).trans_lt h
    simp [add, addAccel, hm, hcount, hw, ← Window.ofSamples_accel]

/-- A collecting monitor judges the window that a sample completes. -/
theorem add_of_complete (hm : m.status = .collecting) (hw : m.window = .ofSamples xs)
    {v : Vec3 α} (h : (forces (xs ++ [.accel v])).length = m.config.length) :
    m.add (.accel v) = ((m.close (.ofSamples (xs ++ [.accel v]))).1,
      (m.close (.ofSamples (xs ++ [.accel v]))).2.toList) := by
  have hcount : ¬ (Window.ofSamples (xs ++ [.accel v])).accel.count < m.windowLength := by
    rw [UInt32.lt_iff_toNat_lt, toNat_windowLength, ← h]
    exact (UInt32.toNat_ofNat_of_lt' (h.trans_lt (Config.length_lt_size _))).not_lt
  simp [add, addAccel, hm, hcount, hw, ← Window.ofSamples_accel]

/-! ## One window -/

/-- A collecting monitor takes the samples of a window that stays open. -/
theorem run_of_incomplete (hm : m.status = .collecting) (hw : m.window = .empty)
    (h : (forces xs).length < m.config.length) :
    process.run m xs = ({ m with window := .ofSamples xs }, []) := by
  induction xs using List.reverseRecOn with
  | nil =>
    have hempty : ({ m with window := .ofSamples [] } : Monitor α) = m := by
      rw [show (Window.ofSamples [] : Window α) = m.window from hw.symm]
    rw [Process.run_nil, hempty]
  | append_singleton xs x ih =>
    have hshort : (forces xs).length < m.config.length := by
      rw [forces_append, List.length_append] at h
      omega
    have hstep : process { m with window := .ofSamples xs } x = _ :=
      add_of_incomplete (m := { m with window := .ofSamples xs }) hm rfl h
    rw [Process.run_append, ih hshort, Process.run_cons, Process.run_nil, hstep]
    rfl

/-- A collecting monitor takes a complete window and judges it. -/
theorem run_of_complete (hm : m.status = .collecting) (hw : m.window = .empty)
    {samples : List (Sample α)} {v : Vec3 α}
    (h : (forces (samples ++ [.accel v])).length = m.config.length) :
    process.run m samples = ({ m with window := .ofSamples samples }, []) ∧
      process { m with window := .ofSamples samples } (.accel v) =
        ((m.close (.ofSamples (samples ++ [.accel v]))).1,
          (m.close (.ofSamples (samples ++ [.accel v]))).2.toList) := by
  have hshort : (forces samples).length < m.config.length := by
    rw [forces_append, List.length_append, forces_accel, List.length_singleton] at h
    omega
  exact ⟨run_of_incomplete hm hw hshort,
    add_of_complete (m := { m with window := .ofSamples samples }) hm rfl h⟩

/-! ## Judging a window -/

/-- One more quiet window, up to the largest count. -/
def nextQuiet (m : Monitor α) : UInt8 := if m.quiet = 0xff then m.quiet else m.quiet + 1

/-- Judging the sums of a window is judging the window. -/
theorem close_ofSamples (m : Monitor α) (hcount : IsCountable w)
    (hforces : (forces w).length = m.config.length) :
    m.close (.ofSamples w) =
      if isQuiet m.config w then
        if m.config.quietWindows ≤ m.nextQuiet then
          ({ m with window := .empty, quiet := m.nextQuiet, status := .locked }, some (averages w))
        else ({ m with window := .empty, quiet := m.nextQuiet }, none)
      else ({ m with window := .empty, quiet := 0 }, none) := by
  have hlt : (forces w).length < UInt32.size := hforces.trans_lt m.config.length_lt_size
  have hpos : 0 < (forces w).length := m.config.length_pos.trans_eq hforces.symm
  have haverage := Window.average?_ofSamples hcount hpos hlt
  by_cases hheard : gyros w = [] ∨ mags w = []
  · have hquiet : isQuiet m.config w = false := by
      rcases hheard with h | h <;> simp [isQuiet, h]
    rw [if_pos hheard] at haverage
    simp only [close, haverage, hquiet, Bool.false_eq_true, if_false]
  · have hquiet : (Window.ofSamples w).isQuiet m.config.noiseLimit = isQuiet m.config w := by
      rw [not_or] at hheard
      simp [Window.isQuiet, isQuiet, hheard, Window.normVariance_ofSamples hlt]
    rw [if_neg hheard] at haverage
    simp only [close, haverage, hquiet]
    rfl

/-- A collecting monitor judges a complete window by its samples. -/
theorem run_complete (hm : m.status = .collecting) (hw : m.window = .empty)
    (hcomplete : IsComplete m.config.length w) (hcount : IsCountable w) :
    process.run m w =
      if isQuiet m.config w then
        if m.config.quietWindows ≤ m.nextQuiet then
          ({ m with window := .empty, quiet := m.nextQuiet, status := .locked }, [averages w])
        else ({ m with window := .empty, quiet := m.nextQuiet }, [])
      else ({ m with window := .empty, quiet := 0 }, []) := by
  obtain ⟨hlength, samples, v, rfl⟩ := hcomplete
  obtain ⟨hinside, hlast⟩ := run_of_complete hm hw hlength
  rw [Process.run_append, hinside, Process.run_cons, hlast, close_ofSamples m hcount hlength]
  cases isQuiet m.config (samples ++ [.accel v]) with
  | true =>
    by_cases henough : m.config.quietWindows ≤ m.nextQuiet
    · simp only [if_true, if_pos henough]
      rfl
    · simp only [if_true, if_neg henough]
      rfl
  | false => rfl

/-- The monitor between two windows, when none of the windows before has locked it. -/
def awaiting (c : Config α) (ws : List (List (Sample α))) : Monitor α :=
  { new c with quiet := .ofNat (quietRun c ws) }

/-- One more quiet window is counted, since the count has not reached its largest value. -/
theorem quiet_succ {n : ℕ} (h : n + 1 < UInt8.size) :
    (if UInt8.ofNat n = 0xff then UInt8.ofNat n else UInt8.ofNat n + 1) = .ofNat (n + 1) := by
  have hne : UInt8.ofNat n ≠ 0xff := by
    intro heq
    have hvalue := UInt8.toNat_inj.mpr heq
    rw [UInt8.toNat_ofNat_of_lt' (by omega)] at hvalue
    rw [hvalue] at h
    exact absurd h (by decide)
  rw [if_neg hne, UInt8.ofNat_add]
  rfl

/-- The monitor judges a complete window: it locks and hands out the averages when the windows now
end with a long enough run of quiet ones. -/
theorem close_awaiting {c : Config α} {ws : List (List (Sample α))}
    (hrun : quietRun c ws < c.required) (hcount : IsCountable w)
    (hforces : (forces w).length = c.length) :
    (awaiting c ws).close (.ofSamples w) =
      if c.required ≤ quietRun c (ws ++ [w]) then
        ({ awaiting c (ws ++ [w]) with status := .locked }, some (averages w))
      else (awaiting c (ws ++ [w]), none) := by
  have hnext : quietRun c ws + 1 < UInt8.size := by
    have := c.required_lt_size
    omega
  rw [close_ofSamples (awaiting c ws) hcount hforces]
  cases hquiet : isQuiet c w with
  | true =>
    have hlonger : quietRun c (ws ++ [w]) = quietRun c ws + 1 := by
      rw [quietRun_concat, hquiet, if_pos rfl]
    have hawaiting : awaiting c (ws ++ [w]) =
        { awaiting c ws with quiet := .ofNat (quietRun c ws + 1) } := by
      rw [awaiting, hlonger]
      rfl
    have hsucc : (awaiting c ws).nextQuiet = .ofNat (quietRun c ws + 1) := quiet_succ hnext
    have henough : (awaiting c ws).config.quietWindows ≤ .ofNat (quietRun c ws + 1) ↔
        c.required ≤ quietRun c ws + 1 := by
      rw [UInt8.le_iff_toNat_le, UInt8.toNat_ofNat_of_lt' hnext, Config.required]
      have hconfig : (awaiting c ws).config = c := rfl
      rw [hconfig]
      omega
    have hconfig : isQuiet (awaiting c ws).config w = true := hquiet
    simp only [hconfig, if_true, hsucc, henough, hlonger, hawaiting]
    rfl
  | false =>
    have hloud : quietRun c (ws ++ [w]) = 0 := by
      rw [quietRun_concat, hquiet]
      rfl
    have hconfig : isQuiet (awaiting c ws).config w = false := hquiet
    have hnone : ¬ c.required ≤ quietRun c (ws ++ [w]) := by
      rw [hloud]
      exact Nat.not_le.mpr c.required_pos
    simp only [hconfig, Bool.false_eq_true, if_false, if_neg hnone]
    rw [awaiting, awaiting, hloud]
    rfl

/-! ## A list of windows -/

variable {c : Config α} {ws : List (List (Sample α))}

/-- Complete windows whose samples can be counted. -/
def AreWindows (c : Config α) (ws : List (List (Sample α))) : Prop :=
  ∀ w ∈ ws, IsComplete c.length w ∧ IsCountable w

/-- Until a window locks the monitor, it waits with the run of quiet windows so far, and hands out
nothing. -/
theorem run_windows_of_not_locksAt (hws : AreWindows c ws) (h : ∀ i, ¬ LocksAt c ws i) :
    process.run (new c) ws.flatten = (awaiting c ws, []) := by
  induction ws using List.reverseRecOn with
  | nil => rfl
  | append_singleton ws w ih =>
    obtain ⟨hlength, samples, v, rfl⟩ := (hws w (by simp)).1
    have hshort := not_locksAt_of_concat h
    have hrun := quietRun_lt_of_not_locksAt hshort
    have hnext := quietRun_lt_of_not_locksAt h
    have hclose := close_awaiting hrun (hws _ (by simp)).2 hlength
    rw [if_neg (Nat.not_le.mpr hnext)] at hclose
    obtain ⟨hinside, hlast⟩ := run_of_complete (m := awaiting c ws) rfl rfl hlength
    rw [List.flatten_append, Process.run_append, ih (fun w' hw' => hws w' (by simp [hw'])) hshort,
      List.flatten_singleton, Process.run_append, hinside, Process.run_cons, hlast, hclose]
    rfl

/-- At the last sample of the window that locks it, the monitor hands out the averages of this
window. -/
theorem run_window_of_locksAt (hws : AreWindows c ws) {i : ℕ} (h : LocksAt c ws i) :
    ∃ samples v, ws[i]? = some (samples ++ [.accel v]) ∧
      process.run (new c) ((ws.take i).flatten ++ samples) =
        ({ awaiting c (ws.take i) with window := .ofSamples samples }, []) ∧
      process { awaiting c (ws.take i) with window := .ofSamples samples } (.accel v) =
        ({ awaiting c (ws.take (i + 1)) with status := .locked },
          [averages (samples ++ [.accel v])]) := by
  have hi := h.lt_length
  have hget : ws[i]? = some ws[i] := List.getElem?_eq_getElem hi
  obtain ⟨⟨hlength, samples, v, hw⟩, hcount⟩ := hws ws[i] (List.getElem_mem hi)
  rw [hw] at hget hlength hcount
  have htake : ws.take (i + 1) = ws.take i ++ [samples ++ [.accel v]] := by
    rw [List.take_add_one, hget]
    rfl
  have hclose := close_awaiting (h.first i (Nat.le_refl i)) hcount hlength
  rw [← htake, if_pos h.run] at hclose
  obtain ⟨hinside, hlast⟩ := run_of_complete (m := awaiting c (ws.take i)) rfl rfl hlength
  refine ⟨samples, v, hget, ?_, ?_⟩
  · have hbefore := run_windows_of_not_locksAt (c := c)
      (fun w hw => hws w (List.mem_of_mem_take hw)) h.not_locksAt_take
    rw [Process.run_append, hbefore, hinside]
    rfl
  · rw [hlast, hclose]
    rfl

/-! ## A whole history -/

/-- A monitor has taken a history with these complete windows and is still collecting: nothing has
been handed out, and it counts the quiet windows that the windows end with. -/
structure Collects (start : Monitor α) (xs : List (Sample α)) (ws : List (List (Sample α))) :
    Prop where
  outputs : (process.run start xs).2 = []
  status : (process.run start xs).1.status = .collecting
  quiet : (process.run start xs).1.quiet.toNat = quietRun start.config ws

/-- A monitor hands out the averages of the window `w` on the specific force `v` that follows the
samples `earlier`, and on nothing else. -/
structure HandsOut (start : Monitor α) (earlier : List (Sample α)) (v : Vec3 α)
    (w : List (Sample α)) : Prop where
  /-- After any number of the earlier samples the monitor is collecting. -/
  before : ∀ k ≤ earlier.length, ∃ prior : Cut start.config.length (earlier.take k),
    Collects start (earlier.take k) prior.windows
  averages : ((process.run start earlier).1.addAccel v).2 = some (averages w)
  locks : ((process.run start earlier).1.addAccel v).1.status = .locked
  /-- No further sample changes anything. -/
  after : ∀ later, process.run start (earlier ++ .accel v :: later) =
    (((process.run start earlier).1.addAccel v).1, [Stillness.averages w])

/-- A history without a window that locks leaves the monitor collecting. -/
theorem collects_of_not_locksAt (cut : Cut c.length xs) (hcount : ∀ w ∈ cut.windows, IsCountable w)
    (h : ∀ i, ¬ LocksAt c cut.windows i) : Collects (new c) xs cut.windows := by
  obtain ⟨ws, rest, rfl, hcomplete, hrest⟩ := cut
  have hrun := run_windows_of_not_locksAt (fun w hw => ⟨hcomplete w hw, hcount w hw⟩) h
  have hopen := run_of_incomplete (m := awaiting c ws) rfl rfl hrest
  have hall : process.run (new c) (ws.flatten ++ rest) =
      ({ awaiting c ws with window := .ofSamples rest }, []) := by
    rw [Process.run_append, hrun, hopen]
    rfl
  refine ⟨by rw [hall], by rw [hall]; rfl, ?_⟩
  rw [hall]
  exact UInt8.toNat_ofNat_of_lt' ((quietRun_lt_of_not_locksAt h).trans c.required_lt_size)

/-- A monitor that is collecting after a history has been collecting all along. -/
theorem collecting_take (hstatus : (process.run m xs).1.status = .collecting) (k : ℕ) :
    (process.run m (xs.take k)).1.status = .collecting := by
  cases hlocked : (process.run m (xs.take k)).1.status with
  | collecting => rfl
  | locked =>
    rw [← List.take_append_drop k xs, Process.run_append, run_of_locked hlocked] at hstatus
    rw [hstatus] at hlocked
    cases hlocked

/-- A history with a window that locks, around the last sample of that window. -/
theorem split_of_locksAt (cut : Cut c.length xs) (hcount : ∀ w ∈ cut.windows, IsCountable w)
    {i : ℕ} (h : LocksAt c cut.windows i) :
    ∃ w earlier v later, cut.windows[i]? = some w ∧
      (cut.windows.take (i + 1)).flatten = earlier ++ [.accel v] ∧
      xs = earlier ++ .accel v :: later ∧
      (process.run (new c) earlier).2 = [] ∧
      (process.run (new c) earlier).1.status = .collecting ∧
      ((process.run (new c) earlier).1.addAccel v).2 = some (averages w) ∧
      ((process.run (new c) earlier).1.addAccel v).1.status = .locked := by
  have hws : AreWindows c cut.windows := fun w hw => ⟨cut.complete w hw, hcount w hw⟩
  obtain ⟨samples, v, hget, hinside, hlast⟩ := run_window_of_locksAt hws h
  generalize hearlier : (cut.windows.take i).flatten ++ samples = earlier at hinside
  have hflatten : (cut.windows.take (i + 1)).flatten = earlier ++ [.accel v] := by
    rw [List.take_add_one, hget, List.flatten_append, Option.toList_some, List.flatten_singleton,
      ← hearlier, List.append_assoc]
  have hhistory : xs = earlier ++ .accel v :: ((cut.windows.drop (i + 1)).flatten ++ cut.rest) := by
    refine cut.history.trans ?_
    rw [List.append_cons, ← hflatten, ← List.append_assoc, ← List.flatten_append,
      List.take_append_drop]
  have hstep := congrArg Prod.fst hlast
  have houtput := congrArg Prod.snd hlast
  refine ⟨samples ++ [.accel v], earlier, v, _, hget, hflatten, hhistory, ?_⟩
  rw [hinside]
  refine ⟨rfl, rfl, Option.toList_eq_singleton_iff.mp houtput, ?_⟩
  exact congrArg status hstep

/-- A history with a window that locks leaves the monitor locked. -/
theorem locked_of_locksAt (cut : Cut c.length xs) (hcount : ∀ w ∈ cut.windows, IsCountable w)
    {i : ℕ} (h : LocksAt c cut.windows i) : (process.run (new c) xs).1.status = .locked := by
  obtain ⟨w, earlier, v, later, -, -, hhistory, -, -, -, hlocks⟩ := split_of_locksAt cut hcount h
  have hstep : (process (process.run (new c) earlier).1 (.accel v)).1.status = .locked := hlocks
  rw [hhistory, Process.run_append, Process.run_cons, run_of_locked hstep]
  exact hlocks

/-- **A stillness monitor finds the first long run of quiet windows.** Every history of samples,
from a new or a reset monitor on, can be cut into windows. If none of them locks, the monitor is
collecting and counts the quiet windows that they end with. Otherwise the averages of the window
that locks are handed out at its last sample, the monitor is locked from then on, and before it was
collecting. -/
theorem detects_stillness (c : Config α) (start : Monitor α)
    (hstart : start = .new c ∨ ∃ m : Monitor α, m.config = c ∧ start = m.reset)
    (xs : List (Sample α)) : Nonempty (Cut c.length xs) ∧
    ∀ cut : Cut c.length xs, (∀ w ∈ cut.windows, IsCountable w) →
      ((∀ i, ¬ LocksAt c cut.windows i) → Collects start xs cut.windows) ∧
      ∀ i, LocksAt c cut.windows i → ∃ w earlier v later, cut.windows[i]? = some w ∧
        (cut.windows.take (i + 1)).flatten = earlier ++ [.accel v] ∧
        xs = earlier ++ .accel v :: later ∧ HandsOut start earlier v w := by
  obtain rfl : start = .new c := by
    rcases hstart with h | ⟨m, rfl, h⟩
    · exact h
    · exact h
  refine ⟨nonempty_cut c.length_pos xs, ?_⟩
  intro cut hcount
  refine ⟨collects_of_not_locksAt cut hcount, ?_⟩
  intro i h
  obtain ⟨w, earlier, v, later, hget, hflatten, rfl, houtputs, hstatus, haverages, hlocks⟩ :=
    split_of_locksAt cut hcount h
  refine ⟨w, earlier, v, later, hget, hflatten, rfl, ?_, haverages, hlocks, ?_⟩
  · intro k hk
    have hexists := cut.exists_take k
    rw [List.take_append_of_le_length hk] at hexists
    obtain ⟨prior, hprior⟩ := hexists
    have hcount' : ∀ w ∈ prior.windows, IsCountable w := fun w hw => hcount w (hprior w hw)
    refine ⟨prior, collects_of_not_locksAt prior hcount' ?_⟩
    intro j hj
    have hcollecting := collecting_take hstatus k
    rw [locked_of_locksAt prior hcount' hj] at hcollecting
    cases hcollecting
  · intro later'
    have hstep : process (process.run (new c) earlier).1 (.accel v) =
        (((process.run (new c) earlier).1.addAccel v).1, [averages w]) :=
      Prod.ext rfl (congrArg Option.toList haverages)
    rw [Process.run_append, Process.run_cons, hstep, run_of_locked hlocks, houtputs]
    rfl

/-- A configuration that asks for two quiet windows of one specific force each. -/
def twoShortWindows : Config Float32 := ⟨1, 1.0, 2⟩

/-- One sample of every sensor, the specific force last. -/
def oneOfEach : List (Sample Float32) := [.gyro .zero, .mag .zero, .accel .zero]

/-- Two windows and the beginning of a third one. -/
def twoAndMore : Cut twoShortWindows.length (oneOfEach ++ oneOfEach ++ [.gyro .zero]) where
  windows := [oneOfEach, oneOfEach]
  rest := [.gyro .zero]
  history := rfl
  complete := by
    intro w hw
    obtain rfl : w = oneOfEach := by simpa using hw
    exact ⟨rfl, [.gyro .zero, .mag .zero], .zero, rfl⟩
  incomplete := by decide

theorem detects_stillness_second_window :
    (∀ w ∈ twoAndMore.windows, IsCountable w) ∧ LocksAt twoShortWindows twoAndMore.windows 1 ∧
    ∃ w earlier v later, twoAndMore.windows[1]? = some w ∧
      (twoAndMore.windows.take 2).flatten = earlier ++ [.accel v] ∧
      oneOfEach ++ oneOfEach ++ [.gyro .zero] = earlier ++ .accel v :: later ∧
      HandsOut (new twoShortWindows) earlier v w := by
  have hcount : ∀ w ∈ twoAndMore.windows, IsCountable w := by
    intro w hw
    obtain rfl : w = oneOfEach := by simpa [twoAndMore] using hw
    exact ⟨by decide, by decide⟩
  have hlocks : LocksAt twoShortWindows twoAndMore.windows 1 :=
    ⟨by decide, by decide +kernel, by decide +kernel⟩
  exact ⟨hcount, hlocks,
    ((detects_stillness twoShortWindows _ (.inl rfl) _).2 twoAndMore hcount).2 1 hlocks⟩

end Monitor
end Attitude.Stillness
