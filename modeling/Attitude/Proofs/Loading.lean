import Attitude.Proofs.Registry
import Attitude.Session.OfParams

/-!
# Parameters survive the store

The fourteen names of the estimator are read one by one, each with a fallback of its own, so a
value under the wrong name would go unnoticed: the default of the right one would be read. Here
parameters are recorded by calls that register the names and set them, in any order and between any
other calls, and loading gives these parameters back.

## Main definitions

* `ParameterStore.LastSet`: a name is registered, set, and not set again
* `Params.Records`: the values that record parameters under a name

## Main results

* `ParameterStore.get?_of_lastSet`: what was set last is shown
* `Params.ofStore_of_records`: the recorded parameters are loaded
-/

namespace Attitude

namespace ParameterStore
variable {s : ParameterStore} {name : String} {v : ParameterValue} {cs : List Call}

/-- The name is registered with success, set to the value later on, and then not set again. The
calls before, between and after are arbitrary otherwise. -/
def LastSet (cs : List Call) (name : String) (v : ParameterValue) : Prop :=
  ∃ before later, cs = before ++ .set name v :: later ∧ name ∈ registeredNames before ∧
    ∀ w, .set name w ∉ later

theorem get?_serve_set (h : (s.get? name).isSome = true) (v : ParameterValue) :
    (s.serve (.set name v)).1.get? name = some v := by
  have hcases : s.Setting name v (s.attempt (.set name v)) := s.setting name v
  generalize hr : s.attempt (.set name v) = r at hcases
  cases hcases with
  | absent absent =>
    rw [absent] at h
    cases h
  | replaced n text found =>
    rw [serve_of_ok hr, (get?_set hr name).2, if_pos rfl]

/-- A shown value stays until its name is set. -/
theorem get?_serve_of_ne (h : s.get? name = some v) {c : Call} (hc : ∀ w, c ≠ .set name w) :
    (s.serve c).1.get? name = some v := by
  cases hattempt : s.attempt c with
  | error e => rwa [serve_of_error hattempt]
  | ok t =>
    rw [serve_of_ok hattempt]
    cases c with
    | register k w => rw [get?_register hattempt, h, Option.some_or]
    | set k w =>
      have hk : name ≠ k := by
        rintro rfl
        exact hc w rfl
      rw [(get?_set hattempt name).2, if_neg hk, h]

theorem get?_run_of_notMem (h : s.get? name = some v) (hcs : ∀ w, .set name w ∉ cs) :
    (process.run s cs).1.get? name = some v := by
  induction cs generalizing s with
  | nil => exact h
  | cons c cs ih =>
    rw [Process.run_cons]
    refine ih (get?_serve_of_ne h ?_) fun w hw => hcs w (List.mem_cons_of_mem c hw)
    rintro w rfl
    exact hcs w List.mem_cons_self

/-- A name shows the value that it was set to last. -/
theorem get?_of_lastSet (h : LastSet cs name v) : (after cs).get? name = some v := by
  obtain ⟨before, later, rfl, hregistered, hlater⟩ := h
  have hpresent := (mem_registeredNames_iff before name).mp hregistered
  rw [after, Process.run_append, Process.run_cons]
  exact get?_run_of_notMem (get?_serve_set hpresent v) hlater

/-- A name that is registered stays so. -/
theorem mem_registeredNames_append (h : name ∈ registeredNames cs) (ds : List Call) :
    name ∈ registeredNames (cs ++ ds) := by
  induction ds using List.reverseRecOn with
  | nil => rwa [List.append_nil]
  | append_singleton ds d ih =>
    rw [← List.append_assoc, registeredNames_append_singleton]
    exact List.mem_append_left _ ih

/-- Setting distinct names sets each of them last. -/
theorem lastSet_of_nodup {entries : List (String × ParameterValue)}
    (hdistinct : (entries.map Prod.fst).Nodup) (hmem : (name, v) ∈ entries)
    (hregistered : name ∈ registeredNames cs) :
    LastSet (cs ++ entries.map fun e => .set e.1 e.2) name v := by
  obtain ⟨front, back, rfl⟩ := List.append_of_mem hmem
  refine ⟨cs ++ front.map fun e => .set e.1 e.2, back.map fun e => .set e.1 e.2, ?_,
    mem_registeredNames_append hregistered _, ?_⟩
  · rw [List.map_append, List.map_cons, List.append_assoc]
  · intro w hw
    obtain ⟨e, he, heq⟩ := List.mem_map.mp hw
    cases heq
    rw [List.map_append, List.map_cons] at hdistinct
    have hback := (List.nodup_cons.mp hdistinct.of_append_right).1
    exact hback (List.mem_map.mpr ⟨e, he, rfl⟩)

end ParameterStore

namespace Params
open ParameterStore (Call LastSet after)

variable {p : Params} {cs : List Call}

/-- The numbers among the parameters, under their names. -/
def numbers (p : Params) : List (String × Float32) :=
  [ ("AHRS_H_X", p.field.x),
    ("AHRS_H_Y", p.field.y),
    ("AHRS_H_Z", p.field.z),
    ("AHRS_MAG_NOISE_X", p.fieldNoise.x),
    ("AHRS_MAG_NOISE_Y", p.fieldNoise.y),
    ("AHRS_MAG_NOISE_Z", p.fieldNoise.z),
    ("AHRS_RATE_ALPHA", p.rateWeight),
    ("AHRS_PROP_FREQ", p.frequency),
    ("AHRS_BODY_PHI", p.mountingAngles.roll),
    ("AHRS_BODY_THETA", p.mountingAngles.pitch),
    ("AHRS_BODY_PSI", p.mountingAngles.yaw),
    ("AHRS_GEO_MAG_HZ", p.fieldRate) ]

/-- The values that record parameters under a name. A flag may be recorded by a value of any kind,
and a missing sender by every integer that numbers none. -/
inductive Records (p : Params) : String → ParameterValue → Prop
  | number {name : String} {x : Float32} (h : (name, x) ∈ p.numbers) : Records p name (.number x)
  | smoothRate {v : ParameterValue} (h : v.toFlag = p.smoothRate) : Records p "AHRS_RATE_LPF" v
  | sender {i : Int32} {id : UInt8} (h : p.sender = some id) (hi : i.toInt = id.toNat) :
    Records p "AHRS_IMU_ID" (.integer i)
  | everyone {i : Int32} (h : p.sender = none) (hi : ¬ (0 ≤ i.toInt ∧ i.toInt ≤ 255)) :
    Records p "AHRS_IMU_ID" (.integer i)

theorem nodup_numbers (p : Params) : (p.numbers.map Prod.fst).Nodup := by
  simp [numbers]

theorem mem_defaultEntries_of_mem_numbers {name : String} {x : Float32}
    (h : (name, x) ∈ p.numbers) : name ∈ defaultEntries.map Prod.fst := by
  have hsub : p.numbers.map Prod.fst ⊆ defaultEntries.map Prod.fst := by
    simp [numbers, defaultEntries]
  exact hsub (List.mem_map_of_mem h)

theorem senderOfInteger_eq_some {i : Int32} {id : UInt8} (h : i.toInt = id.toNat) :
    senderOfInteger i = some id := by
  have hid : id.toNat < 256 := id.toNat_lt
  rw [senderOfInteger, if_pos (by omega), h, Int.toNat_natCast, UInt8.ofNat_toNat]

/-- Under every registered name a store shows a value that records the parameters. -/
def IsRecordedIn (p : Params) (s : ParameterStore) : Prop :=
  ∀ name ∈ defaultEntries.map Prod.fst, ∃ v, p.Records name v ∧ s.get? name = some v

namespace IsRecordedIn
variable {s : ParameterStore} {name : String}

/-- A number is read under its own name, and its fallback is not needed. -/
theorem getNumber (h : p.IsRecordedIn s) {x : Float32} (hx : (name, x) ∈ p.numbers)
    (fallback : Float32) : s.getNumber name fallback = x := by
  obtain ⟨v, hv, hget⟩ := h name (mem_defaultEntries_of_mem_numbers hx)
  rw [ParameterStore.getNumber, hget]
  cases hv with
  | @number _ y hy =>
    have heq := List.inj_on_of_nodup_map p.nodup_numbers hy hx rfl
    exact (Prod.mk.inj heq).2
  | smoothRate => simp [numbers] at hx
  | sender => simp [numbers] at hx
  | everyone => simp [numbers] at hx

theorem getFlag (h : p.IsRecordedIn s) (fallback : Bool) :
    s.getFlag "AHRS_RATE_LPF" fallback = p.smoothRate := by
  obtain ⟨v, hv, hget⟩ := h "AHRS_RATE_LPF" (by simp [defaultEntries])
  rw [ParameterStore.getFlag, hget]
  generalize hname : "AHRS_RATE_LPF" = name at hv
  cases hv with
  | number hx => simp [← hname, numbers] at hx
  | smoothRate hflag => exact hflag
  | sender => simp at hname
  | everyone => simp at hname

theorem senderOfInteger_getInteger (h : p.IsRecordedIn s) (fallback : Int32) :
    senderOfInteger (s.getInteger "AHRS_IMU_ID" fallback) = p.sender := by
  obtain ⟨v, hv, hget⟩ := h "AHRS_IMU_ID" (by simp [defaultEntries])
  rw [ParameterStore.getInteger, hget]
  generalize hname : "AHRS_IMU_ID" = name at hv
  cases hv with
  | number hx => simp [← hname, numbers] at hx
  | smoothRate => simp at hname
  | sender hsender hi =>
    rw [hsender]
    exact senderOfInteger_eq_some hi
  | everyone hsender hi =>
    rw [hsender]
    exact if_neg hi

/-- What a store records is what is loaded from it. -/
theorem ofStore_eq (h : p.IsRecordedIn s) : ofStore s = p := by
  have hnumbers : ∀ e ∈ p.numbers, ∀ fallback, s.getNumber e.1 fallback = e.2 :=
    fun _ he => h.getNumber he
  simp only [numbers, List.forall_mem_cons] at hnumbers
  simp only [ofStore, hnumbers, h.getFlag, h.senderOfInteger_getInteger]

end IsRecordedIn

/-! ## Saving

All parameters can be recorded: register the names, and set each of them once. -/

/-- A value for every name of the estimator. -/
def entries (p : Params) : List (String × ParameterValue) :=
  p.numbers.map (fun e => (e.1, .number e.2)) ++
    [("AHRS_RATE_LPF", .flag p.smoothRate),
      ("AHRS_IMU_ID", .integer (p.sender.elim (-1) fun id => Int32.ofNat id.toNat))]

/-- Register every name with its default, and then set it. -/
def saveCalls (p : Params) : List Call :=
  (defaultEntries.map fun e => .register e.1 e.2) ++ p.entries.map fun e => .set e.1 e.2

theorem registeredNames_defaultEntries :
    ParameterStore.registeredNames (defaultEntries.map fun e => .register e.1 e.2) =
      defaultEntries.map Prod.fst := by
  decide +kernel

theorem records_of_mem_entries {name : String} {v : ParameterValue} (h : (name, v) ∈ p.entries) :
    p.Records name v := by
  rcases List.mem_append.mp h with h | h
  · obtain ⟨e, he, heq⟩ := List.mem_map.mp h
    cases heq
    exact .number he
  · rcases List.mem_pair.mp h with h | h
    · cases h
      exact .smoothRate rfl
    · cases h
      cases hsender : p.sender with
      | none => exact .everyone hsender (by decide)
      | some id =>
        have hid : id.toNat < 256 := id.toNat_lt
        exact .sender hsender (Int32.toInt_ofNat_of_lt (by omega))

/-- Saving records the parameters. -/
theorem exists_lastSet_saveCalls (p : Params) {name : String}
    (h : name ∈ defaultEntries.map Prod.fst) :
    ∃ v, p.Records name v ∧ LastSet p.saveCalls name v := by
  have hdistinct : (p.entries.map Prod.fst).Nodup := by simp [entries, numbers]
  have hsub : defaultEntries.map Prod.fst ⊆ p.entries.map Prod.fst := by
    simp [entries, numbers, defaultEntries]
  obtain ⟨⟨k, v⟩, hmem, rfl⟩ := List.mem_map.mp (hsub h)
  refine ⟨v, records_of_mem_entries hmem, ParameterStore.lastSet_of_nodup hdistinct hmem ?_⟩
  rwa [registeredNames_defaultEntries]

/-! ## Loading -/

/-- **Parameters survive the store.** Whatever else is registered and set, and in whatever order,
the parameters that the estimator's names were last set to are loaded, and they configure a session
as the original ones do. -/
theorem ofStore_of_records
    (h : ∀ name ∈ defaultEntries.map Prod.fst, ∃ v, p.Records name v ∧ LastSet cs name v) :
    ofStore (after cs) = p ∧
      Session.Config.ofParams (ofStore (after cs)) = Session.Config.ofParams p := by
  have hrecorded : p.IsRecordedIn (after cs) := by
    intro name hname
    obtain ⟨v, hv, hlast⟩ := h name hname
    exact ⟨v, hv, ParameterStore.get?_of_lastSet hlast⟩
  have hload := hrecorded.ofStore_eq
  exact ⟨hload, congrArg _ hload⟩

theorem ofStore_of_records_tuned :
    let tuned := { default with smoothRate := true, frequency := 100.0, sender := some 7 }
    (∀ name ∈ defaultEntries.map Prod.fst,
      ∃ v, tuned.Records name v ∧ LastSet tuned.saveCalls name v) ∧
      ofStore (after tuned.saveCalls) = tuned ∧
      Session.Config.ofParams (ofStore (after tuned.saveCalls)) =
        Session.Config.ofParams tuned := by
  intro tuned
  have hsaved : ∀ name ∈ defaultEntries.map Prod.fst,
      ∃ v, tuned.Records name v ∧ LastSet tuned.saveCalls name v :=
    fun _ hname => exists_lastSet_saveCalls tuned hname
  exact ⟨hsaved, ofStore_of_records hsaved⟩

end Params
end Attitude
