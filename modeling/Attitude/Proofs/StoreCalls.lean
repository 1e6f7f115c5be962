import Attitude.Params.Store
import Attitude.Proofs.Process

/-!
# Calls of a parameter store

A store changes by two calls: a name is registered, or it is set. `ParameterStore.serve` carries out
one call, and a refused call leaves the store alone, so that every use of a store is a run of
`ParameterStore.process`.

What one call can do is said once, by `ParameterStore.Registering` and `ParameterStore.Setting`, in
terms of what the store shows: `get?` and `size`. Nothing else looks into the list of entries.

## Main results

* `ParameterStore.registering`, `ParameterStore.setting`: the cases of a call
* `ParameterStore.get?_register`, `ParameterStore.get?_set`: what every name shows afterwards
-/

namespace Attitude

namespace ParameterName

theorem ext_iff {m n : ParameterName} : m = n ↔ m.val = n.val := Subtype.ext_iff

theorem ofString?_eq_some_iff {text : String} {n : ParameterName} :
    ofString? text = some n ↔ n.val = text := by
  rw [ofString?]
  constructor
  · intro h
    split at h
    · cases h
      rfl
    · cases h
  · rintro rfl
    rw [dif_pos n.property]
    rfl

theorem ofString?_eq_none_iff {text : String} :
    ofString? text = none ↔ 16 < text.utf8ByteSize := by
  rw [ofString?, ← Nat.not_le]
  split
  · rename_i h
    exact ⟨nofun, fun h' => absurd h h'⟩
  · rename_i h
    exact ⟨fun _ => h, fun _ => rfl⟩

end ParameterName

namespace ParameterStore
variable {s t : ParameterStore} {name : String} {v : ParameterValue}

/-! ## What a store shows -/

theorem get?_val (s : ParameterStore) (n : ParameterName) : s.get? n.val = s.find? n := by
  rw [get?, ParameterName.ofString?_eq_some_iff.mpr rfl, Option.bind_some]

theorem get?_empty (name : String) : empty.get? name = none := by
  rw [get?]
  cases ParameterName.ofString? name <;> rfl

/-- A text that is too long shows nothing, whatever names begin like it. -/
theorem get?_of_long (h : 16 < name.utf8ByteSize) : s.get? name = none := by
  rw [get?, ParameterName.ofString?_eq_none_iff.mpr h, Option.bind_none]

/-- A name that shows a value has entries, and only those names do. -/
theorem isSome_find?_iff {n : ParameterName} :
    (s.find? n).isSome = true ↔ n ∈ s.entries.map Prod.fst := by
  rw [find?, List.lookup_isSome_iff]
  constructor
  · rintro ⟨e, he, heq⟩
    exact List.mem_map.mpr ⟨e, he, (beq_iff_eq.mp heq).symm⟩
  · intro h
    obtain ⟨e, he, rfl⟩ := List.mem_map.mp h
    exact ⟨e, he, beq_self_eq_true _⟩

theorem find?_cons (n k : ParameterName) (v : ParameterValue)
    (rest : List (ParameterName × ParameterValue)) :
    (⟨(n, v) :: rest⟩ : ParameterStore).find? k =
      if k = n then some v else (⟨rest⟩ : ParameterStore).find? k := by
  rw [find?, List.lookup_cons]
  by_cases h : k = n
  · rw [if_pos h, beq_iff_eq.mpr h]
  · rw [if_neg h, beq_eq_false_iff_ne.mpr h]
    rfl

theorem find?_append (s : ParameterStore) (n k : ParameterName) (v : ParameterValue) :
    (⟨s.entries ++ [(n, v)]⟩ : ParameterStore).find? k =
      (s.find? k).or (if k = n then some v else none) := by
  rw [find?, List.lookup_append]
  exact congrArg _ (find?_cons n k v [])

theorem find?_replace (s : ParameterStore) (n k : ParameterName) (v : ParameterValue) :
    (s.replace n v).find? k = if k = n then (s.find? n).map fun _ => v else s.find? k := by
  obtain ⟨entries⟩ := s
  induction entries with
  | nil => simp [find?, replace]
  | cons e rest ih =>
    obtain ⟨m, w⟩ := e
    rw [replace] at ih ⊢
    by_cases hm : m = n
    · subst hm
      rw [List.map_cons, if_pos rfl, find?_cons, ih, find?_cons, find?_cons, if_pos rfl]
      by_cases hk : k = m
      · rw [if_pos hk, if_pos hk, Option.map_some]
      · rw [if_neg hk, if_neg hk, if_neg hk, if_neg hk]
    · rw [List.map_cons, if_neg hm, find?_cons, ih, find?_cons, find?_cons, if_neg (Ne.symm hm)]
      by_cases hk : k = m
      · rw [if_pos hk, if_pos hk, if_neg (hk ▸ hm)]
      · rw [if_neg hk, if_neg hk]

theorem size_replace (s : ParameterStore) (n : ParameterName) (v : ParameterValue) :
    (s.replace n v).size = s.size := List.length_map _

theorem map_fst_replace (s : ParameterStore) (n : ParameterName) (v : ParameterValue) :
    (s.replace n v).entries.map Prod.fst = s.entries.map Prod.fst := by
  rw [replace, List.map_map]
  refine List.map_congr_left fun e _ => ?_
  dsimp only [Function.comp_apply]
  split
  · rename_i h
    exact h.symm
  · rfl

/-! ## The cases of a call -/

/-- What a registration of `name` with the value `v` can answer. -/
inductive Registering (s : ParameterStore) (name : String) (v : ParameterValue) :
    Except ParameterError ParameterStore → Prop
  /-- The text is too long for a name. -/
  | tooLong (long : 16 < name.utf8ByteSize) : Registering s name v (.error .invalidConfig)
  /-- A name that is present keeps its value. -/
  | present (short : name.utf8ByteSize ≤ 16) (found : (s.get? name).isSome = true) :
      Registering s name v (.ok s)
  /-- A new name comes last. -/
  | added (n : ParameterName) (text : n.val = name) (absent : s.get? name = none)
      (room : s.size < 32) : Registering s name v (.ok ⟨s.entries ++ [(n, v)]⟩)
  /-- There is no room for a new name. -/
  | full (short : name.utf8ByteSize ≤ 16) (absent : s.get? name = none) (full : 32 ≤ s.size) :
      Registering s name v (.error .storeFull)

theorem registering (s : ParameterStore) (name : String) (v : ParameterValue) :
    Registering s name v (s.register name v) := by
  rw [register]
  cases h : ParameterName.ofString? name with
  | none => exact .tooLong (ParameterName.ofString?_eq_none_iff.mp h)
  | some n =>
    have htext := ParameterName.ofString?_eq_some_iff.mp h
    have hget := s.get?_val n
    rw [htext] at hget
    have hshort : name.utf8ByteSize ≤ 16 := htext ▸ n.property
    dsimp only
    rw [← hget]
    split
    · rename_i hfound
      exact .present hshort hfound
    · rename_i habsent
      rw [Option.not_isSome_iff_eq_none] at habsent
      split
      · rename_i hroom
        exact .added n htext habsent hroom
      · rename_i hfull
        exact .full hshort habsent (Nat.not_lt.mp hfull)

/-- What setting `name` to the value `v` can answer. -/
inductive Setting (s : ParameterStore) (name : String) (v : ParameterValue) :
    Except ParameterError ParameterStore → Prop
  /-- Nothing is registered under the name. -/
  | absent (absent : s.get? name = none) : Setting s name v (.error .invalidConfig)
  | replaced (n : ParameterName) (text : n.val = name) (found : (s.get? name).isSome = true) :
      Setting s name v (.ok (s.replace n v))

theorem setting (s : ParameterStore) (name : String) (v : ParameterValue) :
    Setting s name v (s.set name v) := by
  rw [set]
  cases h : ParameterName.ofString? name with
  | none => exact .absent (get?_of_long (ParameterName.ofString?_eq_none_iff.mp h))
  | some n =>
    have htext := ParameterName.ofString?_eq_some_iff.mp h
    have hget := s.get?_val n
    rw [htext] at hget
    dsimp only
    rw [← hget]
    split
    · rename_i hfound
      exact .replaced n htext hfound
    · rename_i habsent
      exact .absent (Option.not_isSome_iff_eq_none.mp habsent)

/-! ## What every name shows afterwards -/

theorem get?_append (n : ParameterName) (v : ParameterValue) (k : String) :
    (⟨s.entries ++ [(n, v)]⟩ : ParameterStore).get? k =
      (s.get? k).or (if k = n.val then some v else none) := by
  cases h : ParameterName.ofString? k with
  | none =>
    have hlong := ParameterName.ofString?_eq_none_iff.mp h
    have hne : k ≠ n.val := by
      rintro rfl
      exact absurd n.property (Nat.not_le.mpr hlong)
    rw [get?_of_long hlong, get?_of_long hlong, if_neg hne, Option.none_or]
  | some m =>
    rw [← ParameterName.ofString?_eq_some_iff.mp h, get?_val, get?_val, find?_append]
    simp only [ParameterName.ext_iff]

theorem get?_replace (n : ParameterName) (v : ParameterValue) (k : String) :
    (s.replace n v).get? k = if k = n.val then (s.get? n.val).map fun _ => v else s.get? k := by
  cases h : ParameterName.ofString? k with
  | none =>
    have hlong := ParameterName.ofString?_eq_none_iff.mp h
    have hne : k ≠ n.val := by
      rintro rfl
      exact absurd n.property (Nat.not_le.mpr hlong)
    rw [get?_of_long hlong, if_neg hne, get?_of_long hlong]
  | some m =>
    rw [← ParameterName.ofString?_eq_some_iff.mp h, get?_val, get?_val, get?_val, find?_replace]
    simp only [ParameterName.ext_iff]

/-- A registration shows its value unless the name had one, and leaves all other names alone. -/
theorem get?_register (h : s.register name v = .ok t) (k : String) :
    t.get? k = (s.get? k).or (if k = name then some v else none) := by
  have hcases := registering s name v
  rw [h] at hcases
  cases hcases with
  | present short found =>
    by_cases hk : k = name
    · rw [hk, Option.or_of_isSome found]
    · rw [if_neg hk, Option.or_none]
  | added n text absent room => rw [get?_append, text]

/-- A name that is set was present, shows the new value, and leaves all other names alone. -/
theorem get?_set (h : s.set name v = .ok t) (k : String) :
    (s.get? name).isSome = true ∧ t.get? k = if k = name then some v else s.get? k := by
  have hcases := setting s name v
  rw [h] at hcases
  cases hcases with
  | replaced n text found =>
    refine ⟨found, ?_⟩
    obtain ⟨w, hw⟩ := Option.isSome_iff_exists.mp found
    rw [get?_replace, text, hw, Option.map_some]

/-! ## Runs -/

/-- A call that may change a store. -/
inductive Call where
  | register (name : String) (v : ParameterValue)
  | set (name : String) (v : ParameterValue)

/-- The store after a call, or why it is refused. -/
def attempt (s : ParameterStore) : Call → Except ParameterError ParameterStore
  | .register name v => s.register name v
  | .set name v => s.set name v

/-- Carry out a call. A refused call leaves the store alone. -/
def serve (s : ParameterStore) (c : Call) : ParameterStore × Except ParameterError Unit :=
  match s.attempt c with
  | .ok t => (t, .ok ())
  | .error e => (s, .error e)

/-- A store as a process from calls to answers. -/
def process : Process ParameterStore Call (Except ParameterError Unit) :=
  fun s c => ((s.serve c).1, [(s.serve c).2])

theorem serve_of_ok {c : Call} (h : s.attempt c = .ok t) : s.serve c = (t, .ok ()) := by
  rw [serve, h]

theorem serve_of_error {c : Call} {e : ParameterError} (h : s.attempt c = .error e) :
    s.serve c = (s, .error e) := by rw [serve, h]

theorem serve_of_refused {c : Call} {e : ParameterError} (h : (s.serve c).2 = .error e) :
    (s.serve c).1 = s := by
  rw [serve] at h ⊢
  cases hattempt : s.attempt c with
  | ok t =>
    rw [hattempt] at h
    cases h
  | error _ => rfl

end ParameterStore
end Attitude
