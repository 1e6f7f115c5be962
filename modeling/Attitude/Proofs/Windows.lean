import Mathlib.Data.List.DropRight
import Mathlib.Data.List.Induction
import Mathlib.Order.Nat
import Attitude.Stillness

/-!
# Windows of a history of samples

What a stillness monitor should do is said here without a monitor. A history of raw samples is cut
after every so many specific forces; each window then has the samples of all three sensors between
two cuts, and is quiet or not. The averages of a window are to be handed out when it is the first
that ends a long enough run of quiet ones.

## Main definitions

* `Stillness.Sample`, and the three lists of vectors in a list of samples
* `Stillness.Cut`: a history by its complete windows and the rest
* `Stillness.isQuiet`, `Stillness.averages`: what a window amounts to
* `Stillness.quietRun`, `Stillness.LocksAt`: the run of quiet windows, and where it is long enough
-/

namespace Attitude.Stillness
variable {α : Type}

/-- A raw sample of one of the three sensors. -/
inductive Sample (α : Type) where
  | gyro (v : Vec3 α)
  | accel (v : Vec3 α)
  | mag (v : Vec3 α)

def Sample.gyro? : Sample α → Option (Vec3 α)
  | .gyro v => some v
  | _ => none

def Sample.accel? : Sample α → Option (Vec3 α)
  | .accel v => some v
  | _ => none

def Sample.mag? : Sample α → Option (Vec3 α)
  | .mag v => some v
  | _ => none

/-- The angular rates in a list of samples, in the order of arrival. -/
def gyros (xs : List (Sample α)) : List (Vec3 α) := xs.filterMap Sample.gyro?

/-- The specific forces in a list of samples, in the order of arrival. -/
def forces (xs : List (Sample α)) : List (Vec3 α) := xs.filterMap Sample.accel?

/-- The fields in a list of samples, in the order of arrival. -/
def mags (xs : List (Sample α)) : List (Vec3 α) := xs.filterMap Sample.mag?

@[simp] theorem gyros_append (xs ys : List (Sample α)) : gyros (xs ++ ys) = gyros xs ++ gyros ys :=
  List.filterMap_append

@[simp] theorem forces_append (xs ys : List (Sample α)) :
    forces (xs ++ ys) = forces xs ++ forces ys := List.filterMap_append

@[simp] theorem mags_append (xs ys : List (Sample α)) : mags (xs ++ ys) = mags xs ++ mags ys :=
  List.filterMap_append

@[simp] theorem gyros_gyro (v : Vec3 α) : gyros [.gyro v] = [v] := rfl
@[simp] theorem gyros_accel (v : Vec3 α) : gyros [.accel v] = [] := rfl
@[simp] theorem gyros_mag (v : Vec3 α) : gyros [.mag v] = [] := rfl
@[simp] theorem forces_gyro (v : Vec3 α) : forces [.gyro v] = [] := rfl
@[simp] theorem forces_accel (v : Vec3 α) : forces [.accel v] = [v] := rfl
@[simp] theorem forces_mag (v : Vec3 α) : forces [.mag v] = [] := rfl
@[simp] theorem mags_gyro (v : Vec3 α) : mags [.gyro v] = [] := rfl
@[simp] theorem mags_accel (v : Vec3 α) : mags [.accel v] = [] := rfl
@[simp] theorem mags_mag (v : Vec3 α) : mags [.mag v] = [v] := rfl

/-! ## Cutting a history -/

/-- A window is complete with its `n`-th specific force, which is its last sample. -/
structure IsComplete (n : ℕ) (w : List (Sample α)) : Prop where
  length : (forces w).length = n
  last : ∃ samples v, w = samples ++ [.accel v]

/-- A history cut after every `n`-th specific force: the complete windows, and the samples since the
last cut. -/
structure Cut (n : ℕ) (xs : List (Sample α)) where
  windows : List (List (Sample α))
  rest : List (Sample α)
  history : xs = windows.flatten ++ rest
  complete : ∀ w ∈ windows, IsComplete n w
  incomplete : (forces rest).length < n

/-- The history of no samples. -/
def Cut.nil {n : ℕ} (h : 0 < n) : Cut n ([] : List (Sample α)) where
  windows := []
  rest := []
  history := rfl
  complete := by simp
  incomplete := h

/-- One more sample that does not complete the open window. -/
def Cut.extend {n : ℕ} {xs : List (Sample α)} (cut : Cut n xs) (x : Sample α)
    (h : (forces (cut.rest ++ [x])).length < n) : Cut n (xs ++ [x]) where
  windows := cut.windows
  rest := cut.rest ++ [x]
  history := (congrArg (· ++ [x]) cut.history).trans (List.append_assoc ..)
  complete := cut.complete
  incomplete := h

/-- One more sample that completes the open window. -/
def Cut.close {n : ℕ} {xs : List (Sample α)} (cut : Cut n xs) (v : Vec3 α)
    (h : (forces (cut.rest ++ [.accel v])).length = n) : Cut n (xs ++ [.accel v]) where
  windows := cut.windows ++ [cut.rest ++ [.accel v]]
  rest := []
  history := (congrArg (· ++ [.accel v]) cut.history).trans (by simp)
  complete := by
    intro w hw
    rcases List.mem_append.mp hw with hw | hw
    · exact cut.complete w hw
    · rw [List.mem_singleton.mp hw]
      exact ⟨h, cut.rest, v, rfl⟩
  incomplete := by
    rw [← h, forces_append, List.length_append]
    exact Nat.succ_pos _

/-- Every history can be cut. -/
theorem nonempty_cut {n : ℕ} (hn : 0 < n) (xs : List (Sample α)) : Nonempty (Cut n xs) := by
  induction xs using List.reverseRecOn with
  | nil => exact ⟨.nil hn⟩
  | append_singleton xs x ih =>
    obtain ⟨cut⟩ := ih
    have hrest := cut.incomplete
    cases x with
    | gyro v => exact ⟨cut.extend _ (by simpa using hrest)⟩
    | mag v => exact ⟨cut.extend _ (by simpa using hrest)⟩
    | accel v =>
      have hlength : (forces (cut.rest ++ [.accel v])).length = (forces cut.rest).length + 1 := by
        simp
      by_cases hfull : (forces cut.rest).length + 1 = n
      · exact ⟨cut.close v (by omega)⟩
      · exact ⟨cut.extend _ (by omega)⟩

/-- The first samples of a cut history are cut in the same way, as far as they go. -/
theorem Cut.exists_take {n : ℕ} {xs : List (Sample α)} (cut : Cut n xs) (k : ℕ) :
    ∃ prior : Cut n (xs.take k), ∀ w ∈ prior.windows, w ∈ cut.windows := by
  obtain ⟨ws, rest, rfl, hcomplete, hrest⟩ := cut
  have hshort : ∀ ys zs : List (Sample α), (forces (ys ++ zs)).length < n →
      (forces ys).length < n := by
    intro ys zs h
    rw [forces_append, List.length_append] at h
    omega
  induction ws generalizing k with
  | nil =>
    refine ⟨⟨[], rest.take k, rfl, by simp, ?_⟩, by simp⟩
    exact hshort _ (rest.drop k) (by rwa [List.take_append_drop])
  | cons w ws ih =>
    by_cases hk : w.length ≤ k
    · obtain ⟨⟨before, last, hhistory, hclosed, hopen⟩, hbefore⟩ :=
        ih (k - w.length) fun w' hw' => hcomplete w' (List.mem_cons_of_mem _ hw')
      refine ⟨⟨w :: before, last, ?_, ?_, hopen⟩, ?_⟩
      · rw [List.flatten_cons, List.append_assoc, List.take_append, List.take_of_length_le hk,
          hhistory, List.flatten_cons, List.append_assoc]
      · exact List.forall_mem_cons.mpr ⟨hcomplete w List.mem_cons_self, hclosed⟩
      · exact List.forall_mem_cons.mpr
          ⟨List.mem_cons_self, fun w' hw' => List.mem_cons_of_mem _ (hbefore w' hw')⟩
    · -- The cut falls inside the first window, before its last sample.
      obtain ⟨hlength, samples, v, rfl⟩ := hcomplete w List.mem_cons_self
      have hinside : k ≤ samples.length := by
        rw [List.length_append, List.length_singleton] at hk
        omega
      refine ⟨⟨[], samples.take k, ?_, by simp, ?_⟩, by simp⟩
      · rw [List.flatten_cons, List.append_assoc, List.append_assoc,
          List.take_append_of_le_length hinside]
        rfl
      · apply hshort _ (samples.drop k)
        rw [List.take_append_drop, ← hlength, forces_append, List.length_append, forces_accel,
          List.length_singleton]
        exact Nat.lt_succ_self _

/-! ## One window -/

/-- The specific forces in a window. -/
def Config.length (c : Config α) : ℕ := max c.windowSamples.toNat 1

theorem Config.length_pos (c : Config α) : 0 < c.length := Nat.le_max_right _ _

theorem Config.length_lt_size (c : Config α) : c.length < UInt32.size :=
  max_lt c.windowSamples.toNat_lt (by decide)

/-- The quiet windows in a row that are asked for. -/
def Config.required (c : Config α) : ℕ := max c.quietWindows.toNat 1

theorem Config.required_pos (c : Config α) : 0 < c.required := Nat.le_max_right _ _

theorem Config.required_lt_size (c : Config α) : c.required < UInt8.size :=
  max_lt c.quietWindows.toNat_lt (by decide)

section
variable [Scalar α]

/-- The number of vectors of a list, as a scalar. -/
def numberOf (vs : List (Vec3 α)) : α := Scalar.ofWord (.ofNat vs.length)

/-- The vectors of a list, added in their order and divided by their number. -/
def meanOf (vs : List (Vec3 α)) : Vec3 α := vs.foldl (· + ·) .zero / numberOf vs

/-- The variance of the norms of a list of vectors, as the difference of two means; a difference
that is not positive counts as zero. -/
def normVarianceOf (vs : List (Vec3 α)) : α :=
  let mean := vs.foldl (fun sum v => sum + v.norm) 0.0 / numberOf vs
  let variance := vs.foldl (fun sum v => sum + v.norm * v.norm) 0.0 / numberOf vs - mean * mean
  if 0.0 < variance then variance else 0.0

/-- The averages of the three sensors over a window. -/
def averages (w : List (Sample α)) : Readings α :=
  ⟨meanOf (gyros w), meanOf (forces w), meanOf (mags w)⟩

/-- A window is quiet when gyro and magnetometer have been heard in it and the norm of the specific
force varied less than the limit. -/
def isQuiet (c : Config α) (w : List (Sample α)) : Bool :=
  !(gyros w).isEmpty && !(mags w).isEmpty &&
    decide (normVarianceOf (forces w) < c.noiseLimit * c.noiseLimit)

/-- The samples of gyro and magnetometer in a window are few enough to be counted in a word. -/
structure IsCountable (w : List (Sample α)) : Prop where
  gyros : (gyros w).length < UInt32.size
  mags : (mags w).length < UInt32.size

/-! ## Runs of quiet windows -/

/-- The length of the run of quiet windows that a list of windows ends with. -/
def quietRun (c : Config α) (ws : List (List (Sample α))) : ℕ := (ws.rtakeWhile (isQuiet c)).length

@[simp] theorem quietRun_nil (c : Config α) : quietRun c [] = 0 := rfl

@[simp] theorem quietRun_concat (c : Config α) (ws : List (List (Sample α)))
    (w : List (Sample α)) :
    quietRun c (ws ++ [w]) = if isQuiet c w then quietRun c ws + 1 else 0 := by
  rw [quietRun, List.rtakeWhile_concat]
  split <;> simp [quietRun]

/-- The window at position `i` is the first one that ends a run of quiet windows of the length that
is asked for. -/
structure LocksAt (c : Config α) (ws : List (List (Sample α))) (i : ℕ) : Prop where
  lt_length : i < ws.length
  run : c.required ≤ quietRun c (ws.take (i + 1))
  first : ∀ j ≤ i, quietRun c (ws.take j) < c.required

/-- Windows none of which locks end with a run that is shorter than what is asked for. -/
theorem quietRun_lt_of_not_locksAt {c : Config α} {ws : List (List (Sample α))}
    (h : ∀ i, ¬ LocksAt c ws i) : quietRun c ws < c.required := by
  have hprefix : ∀ j ≤ ws.length, quietRun c (ws.take j) < c.required := by
    intro j
    induction j using Nat.strong_induction_on with
    | _ j ih =>
      intro hj
      cases j with
      | zero => exact c.required_pos
      | succ i =>
        rw [← Nat.not_le]
        intro hrun
        exact h i ⟨hj, hrun, fun k hk => ih k (by omega) (by omega)⟩
  have hall := hprefix ws.length (Nat.le_refl _)
  rwa [List.take_length] at hall

/-- What comes before the window that locks does not lock. -/
theorem LocksAt.not_locksAt_take {c : Config α} {ws : List (List (Sample α))} {i : ℕ}
    (h : LocksAt c ws i) (k : ℕ) : ¬ LocksAt c (ws.take i) k := by
  intro hk
  have hlt : k < i := by
    have hlength := hk.lt_length
    rw [List.length_take] at hlength
    omega
  have hrun := hk.run
  rw [List.take_take, Nat.min_eq_left hlt] at hrun
  exact absurd hrun (Nat.not_le.mpr (h.first (k + 1) hlt))

/-- A list of windows none of which locks can be shortened. -/
theorem not_locksAt_of_concat {c : Config α} {ws : List (List (Sample α))} {w : List (Sample α)}
    (h : ∀ i, ¬ LocksAt c (ws ++ [w]) i) (i : ℕ) : ¬ LocksAt c ws i := by
  intro hi
  have hlt := hi.lt_length
  have htake : ∀ j ≤ ws.length, (ws ++ [w]).take j = ws.take j := by
    intro j hj
    rw [List.take_append_of_le_length hj]
  refine h i ⟨by simp; omega, ?_, ?_⟩
  · rw [htake (i + 1) hlt]
    exact hi.run
  · intro j hj
    rw [htake j (by omega)]
    exact hi.first j hj

end

end Attitude.Stillness
