import Attitude.Proofs.Loading

/-!
# Registering the defaults

Registration goes through the names of the estimator in their order, leaves a name that is present
alone, and stops at the first new one without room. What it adds to a store is therefore a first
part of the names that are missing, and that part may end anywhere. Nothing that is loaded changes,
wherever it ends: every default reads back, through the reader of its name, as the value that is
loaded when the name is missing.

## Main definitions

* `ParameterStore.missing`, `ParameterStore.fitting`: the entries that are new, and those of them
  that find room
* `Params.KeepsLoaded`: what registering the defaults does to a store

## Main results

* `Params.registersAll_of_distinct`: a registration of any short and distinct names
* `Params.keepsLoaded_registerDefaults`
-/

namespace Attitude

namespace ParameterStore
variable {s : ParameterStore} {name : String} {v : ParameterValue}

/-- The entries whose names show nothing. -/
def missing (s : ParameterStore) (es : List (String × ParameterValue)) :
    List (String × ParameterValue) :=
  es.filter fun e => (s.get? e.1).isNone

/-- The first missing entries, as many as there is room for. -/
def fitting (s : ParameterStore) (es : List (String × ParameterValue)) :
    List (String × ParameterValue) :=
  (s.missing es).take (32 - s.size)

theorem missing_cons_of_present (h : (s.get? name).isSome = true) (v : ParameterValue)
    (es : List (String × ParameterValue)) : s.missing ((name, v) :: es) = s.missing es := by
  obtain ⟨w, hw⟩ := Option.isSome_iff_exists.mp h
  simp [missing, hw]

theorem missing_cons_of_absent (h : s.get? name = none) (v : ParameterValue)
    (es : List (String × ParameterValue)) :
    s.missing ((name, v) :: es) = (name, v) :: s.missing es := by
  simp [missing, h]

/-- A new name is missing from no other entry. -/
theorem missing_append {n : ParameterName} (v : ParameterValue)
    {es : List (String × ParameterValue)} (h : n.val ∉ es.map Prod.fst) :
    (⟨s.entries ++ [(n, v)]⟩ : ParameterStore).missing es = s.missing es := by
  refine List.filter_congr fun e he => ?_
  have hne : e.1 ≠ n.val := by
    rintro heq
    exact h (heq ▸ List.mem_map_of_mem he)
  rw [get?_append, if_neg hne, Option.or_none]

theorem size_append (s : ParameterStore) (e : ParameterName × ParameterValue) :
    (⟨s.entries ++ [e]⟩ : ParameterStore).size = s.size + 1 := List.length_append

theorem mem_of_lookup_fitting {es : List (String × ParameterValue)}
    (h : (s.fitting es).lookup name = some v) : (name, v) ∈ es := by
  obtain ⟨front, back, heq, -⟩ := List.lookup_eq_some_iff.mp h
  have hmem : (name, v) ∈ s.fitting es := by
    rw [heq]
    exact List.mem_append_right _ List.mem_cons_self
  exact List.mem_of_mem_filter (List.mem_of_mem_take hmem)

end ParameterStore

namespace Params
open ParameterStore

/-! ## A registration of many names -/

/-- The outcome of registering entries: all of the missing ones find room, or the first ones do. -/
structure RegistersAll (s : ParameterStore) (es : List (String × ParameterValue)) : Prop where
  /-- What was there stays, and comes first. -/
  entries : s.entries <+: (registerAll s es).1.entries
  get : ∀ name, (registerAll s es).1.get? name =
    (s.get? name).or ((s.fitting es).lookup name)
  answer : (registerAll s es).2 =
    if (s.missing es).length ≤ 32 - s.size then .ok () else .error .storeFull

section
variable {s : ParameterStore} {name : String} {v : ParameterValue}
  {es : List (String × ParameterValue)}

/-- A name that is present costs nothing. -/
theorem RegistersAll.cons_present (h : RegistersAll s es) (found : (s.get? name).isSome = true)
    (hregister : s.register name v = .ok s) : RegistersAll s ((name, v) :: es) := by
  have hstep : registerAll s ((name, v) :: es) = registerAll s es := by
    rw [registerAll, hregister]
  have hmissing := missing_cons_of_present found v es
  constructor
  · rw [hstep]
    exact h.entries
  · rw [hstep, fitting, hmissing]
    exact h.get
  · rw [hstep, hmissing]
    exact h.answer

/-- A new name takes the first free place. -/
theorem RegistersAll.cons_added {n : ParameterName}
    (h : RegistersAll ⟨s.entries ++ [(n, v)]⟩ es) (absent : s.get? n.val = none)
    (room : s.size < 32) (hnew : n.val ∉ es.map Prod.fst)
    (hregister : s.register n.val v = .ok ⟨s.entries ++ [(n, v)]⟩) :
    RegistersAll s ((n.val, v) :: es) := by
  have hstep : registerAll s ((n.val, v) :: es) = registerAll ⟨s.entries ++ [(n, v)]⟩ es := by
    rw [registerAll, hregister]
  have hmissing := missing_append v hnew (s := s)
  have hroom : 32 - s.size = 32 - (s.size + 1) + 1 := by omega
  have hfitting : s.fitting ((n.val, v) :: es) =
      (n.val, v) :: (⟨s.entries ++ [(n, v)]⟩ : ParameterStore).fitting es := by
    rw [fitting, fitting, missing_cons_of_absent absent, hmissing, size_append, hroom,
      List.take_succ_cons]
  constructor
  · rw [hstep]
    exact (List.prefix_append _ _).trans h.entries
  · intro k
    rw [hstep, h.get, get?_append, hfitting, Option.or_assoc, List.lookup_cons]
    by_cases hk : k = n.val
    · simp [hk]
    · simp [hk, beq_eq_false_iff_ne.mpr hk]
  · rw [hstep, h.answer, hmissing, missing_cons_of_absent absent, size_append, List.length_cons]
    exact if_congr (by omega) rfl rfl

/-- The first new name without a place ends the registration. -/
theorem RegistersAll.cons_full (absent : s.get? name = none) (full : 32 ≤ s.size)
    (hregister : s.register name v = .error .storeFull) : RegistersAll s ((name, v) :: es) := by
  have hstep : registerAll s ((name, v) :: es) = (s, .error .storeFull) := by
    rw [registerAll, hregister]
  have hroom : 32 - s.size = 0 := by omega
  constructor
  · rw [hstep]
  · intro k
    rw [hstep, fitting, hroom]
    simp
  · rw [hstep, missing_cons_of_absent absent, hroom]
    simp

end

/-- **Registering short and distinct names** adds the missing ones in their order, as far as there is
room. -/
theorem registersAll_of_distinct {es : List (String × ParameterValue)}
    (hshort : ∀ e ∈ es, e.1.utf8ByteSize ≤ 16) (hdistinct : (es.map Prod.fst).Nodup)
    (s : ParameterStore) : RegistersAll s es := by
  -- The store changes from name to name, so the induction is for all stores. That the names are
  -- distinct keeps a name that was just added out of the missing ones of the rest.
  induction es generalizing s with
  | nil =>
    refine ⟨List.prefix_rfl, fun name => ?_, rfl⟩
    simp [registerAll, fitting, missing]
  | cons e es ih =>
    obtain ⟨name, v⟩ := e
    rw [List.map_cons, List.nodup_cons] at hdistinct
    have hrest := ih (fun e he => hshort e (List.mem_cons_of_mem _ he)) hdistinct.2
    have hcases := registering s name v
    generalize hr : s.register name v = r at hcases
    cases hcases with
    | tooLong long => exact absurd (hshort _ List.mem_cons_self) (Nat.not_le.mpr long)
    | present short found => exact (hrest s).cons_present found hr
    | added n text absent room =>
      subst text
      exact (hrest _).cons_added absent room hdistinct.1 hr
    | full short absent full => exact .cons_full absent full hr

/-! ## The defaults -/

theorem nodup_defaultEntries : (defaultEntries.map Prod.fst).Nodup := by
  simp [defaultEntries]

theorem registersAll_defaultEntries (s : ParameterStore) : RegistersAll s defaultEntries :=
  registersAll_of_distinct (by decide +kernel) nodup_defaultEntries s

/-- A default that reads back as the fallback of its name makes no difference to a reader. -/
theorem elim_get?_registerDefaults {β : Type} {name : String} {read : ParameterValue → β}
    {fallback : β} (hread : ∀ v, (name, v) ∈ defaultEntries → read v = fallback)
    (s : ParameterStore) : ((registerDefaults s).1.get? name).elim fallback read =
      (s.get? name).elim fallback read := by
  have hget : (registerDefaults s).1.get? name =
      (s.get? name).or ((s.fitting defaultEntries).lookup name) :=
    (registersAll_defaultEntries s).get name
  rw [hget]
  cases s.get? name with
  | some v => rfl
  | none =>
    cases hadded : (s.fitting defaultEntries).lookup name with
    | none => rfl
    | some v => exact hread v (mem_of_lookup_fitting hadded)

theorem eq_of_mem_defaultEntries {name : String} {v w : ParameterValue}
    (hv : (name, v) ∈ defaultEntries) (hw : (name, w) ∈ defaultEntries) : v = w :=
  (Prod.mk.inj (List.inj_on_of_nodup_map nodup_defaultEntries hv hw rfl)).2

/-- The defaults of the numbers are registered as they are. -/
theorem number_mem_defaultEntries {name : String} {x : Float32} (h : (name, x) ∈ default.numbers) :
    (name, .number x) ∈ defaultEntries := by
  have hsub : default.numbers.map (fun e => (e.1, ParameterValue.number e.2)) ⊆ defaultEntries := by
    simp [numbers, defaultEntries, default]
  exact hsub (List.mem_map.mpr ⟨_, h, rfl⟩)

/-- Nothing that is loaded changes. -/
theorem ofStore_registerDefaults (s : ParameterStore) :
    ofStore (registerDefaults s).1 = ofStore s := by
  have hnumbers : ∀ e ∈ default.numbers,
      (registerDefaults s).1.getNumber e.1 e.2 = s.getNumber e.1 e.2 := by
    intro e he
    refine elim_get?_registerDefaults (fun v hv => ?_) s
    rw [eq_of_mem_defaultEntries hv (number_mem_defaultEntries he)]
    rfl
  have hflag : (registerDefaults s).1.getFlag "AHRS_RATE_LPF" default.smoothRate =
      s.getFlag "AHRS_RATE_LPF" default.smoothRate := by
    refine elim_get?_registerDefaults (fun v hv => ?_) s
    rw [eq_of_mem_defaultEntries (w := .integer 0) hv (by simp [defaultEntries])]
    rfl
  have hsender : (registerDefaults s).1.getInteger "AHRS_IMU_ID" (-1) =
      s.getInteger "AHRS_IMU_ID" (-1) := by
    refine elim_get?_registerDefaults (fun v hv => ?_) s
    rw [eq_of_mem_defaultEntries (w := .integer (-1)) hv (by simp [defaultEntries])]
    rfl
  simp only [numbers, List.forall_mem_cons] at hnumbers
  simp only [ofStore, hnumbers, hflag, hsender]

theorem ofStore_empty : ofStore .empty = default := by
  have hsender : senderOfInteger (-1) = default.sender := rfl
  simp only [ofStore, getNumber, getFlag, getInteger, get?_empty, Option.elim_none, hsender]

/-- What registering the defaults does to a store. -/
structure KeepsLoaded (s : ParameterStore) : Prop where
  /-- Every missing name finds room, or the store is full before the last of them. -/
  answer : (registerDefaults s).2 =
    if (s.missing defaultEntries).length ≤ 32 - s.size then .ok () else .error .storeFull
  /-- The entries of the store stay, in their order. -/
  entries : s.entries <+: (registerDefaults s).1.entries
  present : ∀ name v, s.get? name = some v → (registerDefaults s).1.get? name = some v
  /-- A missing name shows its default if it is among those that find room, and nothing otherwise. -/
  absent : ∀ name, s.get? name = none →
    (registerDefaults s).1.get? name = (s.fitting defaultEntries).lookup name
  load : ofStore (registerDefaults s).1 = ofStore s

/-- **Registering the defaults changes nothing that is loaded**, whatever the store holds and however
full it is. An empty store takes them all, and the default parameters are loaded from it. -/
theorem keepsLoaded_registerDefaults (s : ParameterStore) : KeepsLoaded s ∧
    (registerDefaults .empty).2 = .ok () ∧ ofStore (registerDefaults .empty).1 = default := by
  have hall := registersAll_defaultEntries s
  refine ⟨⟨hall.answer, hall.entries, ?_, ?_, ofStore_registerDefaults s⟩, ?_, ?_⟩
  · intro name v hv
    refine (hall.get name).trans ?_
    rw [hv, Option.some_or]
  · intro name hnone
    refine (hall.get name).trans ?_
    rw [hnone, Option.none_or]
  · have hroom : (ParameterStore.empty.missing defaultEntries).length ≤ 32 - empty.size :=
      (List.length_filter_le _ _).trans (by decide)
    exact (registersAll_defaultEntries .empty).answer.trans (if_pos hroom)
  · rw [ofStore_registerDefaults, ofStore_empty]

end Params
end Attitude
