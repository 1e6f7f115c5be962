import Mathlib.Data.Finmap
import Mathlib.Data.List.Induction
import Attitude.Proofs.StoreCalls

/-!
# A parameter store is a bounded map

A store keeps a list of entries and compares names by their bytes. Seen from outside it is a finite
map from texts to values: `Registry` is that map, and says in one line for each call what is refused
and what changes. It knows neither entries nor names, and it tests the length of a text and the
number of names against plain numbers.

A store and the registry beside it answer every list of calls alike, and show the same value under
every text. The invariant is `Registry.Represents`; one call keeps it, so a run does.

## Main definitions

* `Registry`, `Registry.serve`: the reference
* `ParameterStore.registeredNames`: the names that have been registered with success
* `ParameterStore.BoundedMap`: what a new store does over a list of calls
-/

namespace Attitude

/-- A finite map from texts to values. -/
abbrev Registry : Type := Finmap fun _ : String => ParameterValue

namespace Registry

/-- A new name is registered if it is short enough and there is room, and a name that is present is
left alone. Only a name that is present is set. -/
def serve (m : Registry) : ParameterStore.Call → Registry × Except ParameterError Unit
  | .register name v =>
    if 16 < name.utf8ByteSize then (m, .error .invalidConfig)
    else if name ∈ m then (m, .ok ())
    else if m.keys.card = 32 then (m, .error .storeFull)
    else (m.insert name v, .ok ())
  | .set name v =>
    if name ∈ m then (m.insert name v, .ok ()) else (m, .error .invalidConfig)

/-- A registry as a process from calls to answers. -/
def process : Process Registry ParameterStore.Call (Except ParameterError Unit) :=
  fun m c => ((m.serve c).1, [(m.serve c).2])

/-- A store and a registry show the same, and the store holds every name once. -/
structure Represents (m : Registry) (s : ParameterStore) : Prop where
  get : ∀ name, s.get? name = m.lookup name
  distinct : (s.entries.map Prod.fst).Nodup
  size : s.size = m.keys.card
  bounded : m.keys.card ≤ 32

variable {m : Registry} {s : ParameterStore} {name : String} {v : ParameterValue}

theorem Represents.mem_iff (h : m.Represents s) (name : String) :
    name ∈ m ↔ (s.get? name).isSome = true := by
  rw [h.get, Finmap.lookup_isSome]

theorem Represents.notMem (h : m.Represents s) (habsent : s.get? name = none) : name ∉ m := by
  rw [h.mem_iff, habsent]
  exact Bool.false_ne_true

theorem represents_empty : (∅ : Registry).Represents .empty where
  get name := by rw [Finmap.lookup_empty, ParameterStore.get?_empty]
  distinct := List.nodup_nil
  size := rfl
  bounded := by simp

theorem keys_insert (m : Registry) (name : String) (v : ParameterValue) :
    (m.insert name v).keys = Insert.insert name m.keys := by
  ext k
  simp [Finmap.mem_keys, Finmap.mem_insert]

theorem lookup_insert_eq (m : Registry) (name k : String) (v : ParameterValue) :
    (m.insert name v).lookup k = if k = name then some v else m.lookup k := by
  by_cases hk : k = name
  · rw [hk, if_pos rfl, Finmap.lookup_insert]
  · rw [if_neg hk, Finmap.lookup_insert_of_ne _ hk]

/-- A new name that finds room is represented by a new last entry. -/
theorem Represents.append (h : m.Represents s) {n : ParameterName} (text : n.val = name)
    (absent : s.get? name = none) (room : s.size < 32) :
    Represents (m.insert name v) ⟨s.entries ++ [(n, v)]⟩ := by
  have hkeys : (m.insert name v).keys.card = m.keys.card + 1 := by
    rw [keys_insert, Finset.card_insert_of_notMem]
    rw [Finmap.mem_keys]
    exact h.notMem absent
  have hsize := h.size
  refine ⟨?_, ?_, ?_, by omega⟩
  · intro k
    rw [ParameterStore.get?_append, text, lookup_insert_eq, ← h.get]
    by_cases hk : k = name
    · rw [hk, absent, if_pos rfl, Option.none_or]
    · rw [if_neg hk, if_neg hk, Option.or_none]
  · have hnew : n ∉ s.entries.map Prod.fst := by
      rw [← ParameterStore.isSome_find?_iff, ← ParameterStore.get?_val, text, absent]
      exact Bool.false_ne_true
    rw [List.map_append, List.map_singleton, ← List.concat_eq_append]
    exact h.distinct.concat hnew
  · rw [hkeys, ← hsize]
    exact List.length_append

/-- A new value under a present name changes neither the names nor their number. -/
theorem Represents.replace (h : m.Represents s) {n : ParameterName} (text : n.val = name)
    (found : (s.get? name).isSome = true) : Represents (m.insert name v) (s.replace n v) := by
  have hkeys : (m.insert name v).keys = m.keys := by
    rw [keys_insert, Finset.insert_eq_of_mem]
    rw [Finmap.mem_keys, h.mem_iff]
    exact found
  refine ⟨?_, ?_, ?_, by rw [hkeys]; exact h.bounded⟩
  · intro k
    obtain ⟨w, hw⟩ := Option.isSome_iff_exists.mp found
    rw [ParameterStore.get?_replace, text, hw, Option.map_some, lookup_insert_eq, h.get]
  · rw [ParameterStore.map_fst_replace]
    exact h.distinct
  · rw [ParameterStore.size_replace, hkeys]
    exact h.size

/-- **One call.** A store answers as the registry that it represents, and represents it after the
call as well. -/
theorem Represents.serve (h : m.Represents s) (c : ParameterStore.Call) :
    (s.serve c).2 = (m.serve c).2 ∧ (m.serve c).1.Represents (s.serve c).1 := by
  have hcard := h.size
  cases c with
  | register name v =>
    have hcases : s.Registering name v (s.attempt (.register name v)) := s.registering name v
    generalize hr : s.attempt (.register name v) = r at hcases
    cases hcases with
    | tooLong long =>
      rw [ParameterStore.serve_of_error hr, Registry.serve, if_pos long]
      exact ⟨rfl, h⟩
    | present short found =>
      rw [ParameterStore.serve_of_ok hr, Registry.serve, if_neg (Nat.not_lt.mpr short),
        if_pos ((h.mem_iff name).mpr found)]
      exact ⟨rfl, h⟩
    | added n text absent room =>
      have hshort : ¬ 16 < name.utf8ByteSize := Nat.not_lt.mpr (text ▸ n.property)
      rw [ParameterStore.serve_of_ok hr, Registry.serve, if_neg hshort, if_neg (h.notMem absent),
        if_neg (by omega)]
      exact ⟨rfl, h.append text absent room⟩
    | full short absent full =>
      have hfull : m.keys.card = 32 := by
        have hbound := h.bounded
        omega
      rw [ParameterStore.serve_of_error hr, Registry.serve, if_neg (Nat.not_lt.mpr short),
        if_neg (h.notMem absent), if_pos hfull]
      exact ⟨rfl, h⟩
  | set name v =>
    have hcases : s.Setting name v (s.attempt (.set name v)) := s.setting name v
    generalize hr : s.attempt (.set name v) = r at hcases
    cases hcases with
    | absent absent =>
      rw [ParameterStore.serve_of_error hr, Registry.serve, if_neg (h.notMem absent)]
      exact ⟨rfl, h⟩
    | replaced n text found =>
      rw [ParameterStore.serve_of_ok hr, Registry.serve, if_pos ((h.mem_iff name).mpr found)]
      exact ⟨rfl, h.replace text found⟩

/-- Over every list of calls the answers are the same, and the registry stays represented. -/
theorem Represents.run (h : m.Represents s) (cs : List ParameterStore.Call) :
    (ParameterStore.process.run s cs).2 = (process.run m cs).2 ∧
      (process.run m cs).1.Represents (ParameterStore.process.run s cs).1 := by
  induction cs generalizing m s with
  | nil => exact ⟨rfl, h⟩
  | cons c cs ih =>
    obtain ⟨hanswer, hnext⟩ := h.serve c
    obtain ⟨hanswers, hlast⟩ := ih hnext
    rw [Process.run_cons, Process.run_cons]
    exact ⟨List.cons_eq_cons.mpr ⟨hanswer, hanswers⟩, hlast⟩

end Registry

namespace ParameterStore

/-! ## A new store -/

/-- A new store after a list of calls. -/
def after (cs : List Call) : ParameterStore := (process.run .empty cs).1

/-- What a new store answers to a list of calls. -/
def answers (cs : List Call) : List (Except ParameterError Unit) := (process.run .empty cs).2

/-- The name of a registration that is answered with success. -/
def registeredName? : Call × Except ParameterError Unit → Option String
  | (.register name _, .ok ()) => some name
  | _ => none

/-- The names that a list of calls registers with success, as often as it does. -/
def registeredNames (cs : List Call) : List String :=
  (cs.zip (answers cs)).filterMap registeredName?

theorem after_append_singleton (cs : List Call) (c : Call) :
    after (cs ++ [c]) = ((after cs).serve c).1 := by
  rw [after, Process.run_append]
  rfl

theorem answers_append_singleton (cs : List Call) (c : Call) :
    answers (cs ++ [c]) = answers cs ++ [((after cs).serve c).2] := by
  rw [answers, Process.run_append]
  rfl

theorem length_answers (cs : List Call) : (answers cs).length = cs.length := by
  induction cs using List.reverseRecOn with
  | nil => rfl
  | append_singleton cs c ih =>
    rw [answers_append_singleton, List.length_append, List.length_append, ih]
    rfl

theorem registeredNames_append_singleton (cs : List Call) (c : Call) :
    registeredNames (cs ++ [c]) =
      registeredNames cs ++ (registeredName? (c, ((after cs).serve c).2)).toList := by
  rw [registeredNames, answers_append_singleton, List.zip_append (length_answers cs).symm,
    List.filterMap_append]
  refine congrArg _ ?_
  cases h : registeredName? (c, ((after cs).serve c).2) <;> simp [h]

/-- A name shows a value as soon as it is registered with success, and from then on. -/
theorem isSome_get?_serve (s : ParameterStore) (c : Call) (name : String) :
    ((s.serve c).1.get? name).isSome = true ↔
      (s.get? name).isSome = true ∨ registeredName? (c, (s.serve c).2) = some name := by
  cases h : s.attempt c with
  | error e =>
    rw [serve_of_error h]
    cases c <;> simp [registeredName?]
  | ok t =>
    rw [serve_of_ok h]
    cases c with
    | register k v =>
      rw [get?_register h]
      by_cases hk : name = k
      · simp [hk, registeredName?]
      · simp [hk, registeredName?, Ne.symm hk]
    | set k v =>
      obtain ⟨hfound, hget⟩ := get?_set h name
      rw [hget]
      by_cases hk : name = k
      · simp [hk, hfound, registeredName?]
      · simp [hk, registeredName?]

theorem mem_registeredNames_iff (cs : List Call) (name : String) :
    name ∈ registeredNames cs ↔ ((after cs).get? name).isSome = true := by
  induction cs using List.reverseRecOn with
  | nil =>
    have hnone : (after []).get? name = none := get?_empty name
    simp [registeredNames, hnone]
  | append_singleton cs c ih =>
    rw [registeredNames_append_singleton, after_append_singleton, isSome_get?_serve,
      List.mem_append, ih, Option.mem_toList]

/-- What a new store does over a list of calls. -/
structure BoundedMap (cs : List Call) : Prop where
  /-- It answers every call as the reference does. -/
  answer : answers cs = (Registry.process.run ∅ cs).2
  /-- Every text shows what it does in the reference. -/
  get : ∀ name, (after cs).get? name = (Registry.process.run ∅ cs).1.lookup name
  /-- A call that is refused changes nothing. -/
  atomic : ∀ k c e, cs[k]? = some c → (answers cs)[k]? = some (.error e) →
    after (cs.take (k + 1)) = after (cs.take k)
  /-- The names that show a value are those that have been registered with success. -/
  present : ∀ name, ((after cs).get? name).isSome = true ↔ name ∈ registeredNames cs
  /-- The size is the number of these names. -/
  size : (after cs).size = (registeredNames cs).toFinset.card
  /-- It never decreases. -/
  grows : ∀ j k, j ≤ k → (after (cs.take j)).size ≤ (after (cs.take k)).size
  /-- It never exceeds the capacity. -/
  bounded : (after cs).size ≤ 32
  /-- A text that is too long shows nothing, whatever is stored under its beginning. -/
  long : ∀ name, 16 < name.utf8ByteSize → (after cs).get? name = none

theorem size_eq_card (cs : List Call) :
    (after cs).size = (registeredNames cs).toFinset.card ∧ (after cs).size ≤ 32 := by
  obtain ⟨-, hrepresents⟩ := Registry.represents_empty.run cs
  have hsize : (after cs).size = (Registry.process.run ∅ cs).1.keys.card := hrepresents.size
  have hkeys : (Registry.process.run ∅ cs).1.keys = (registeredNames cs).toFinset := by
    ext name
    rw [Finmap.mem_keys, hrepresents.mem_iff, List.mem_toFinset, mem_registeredNames_iff]
    exact Iff.rfl
  exact ⟨by rw [hsize, hkeys], hsize.trans_le hrepresents.bounded⟩

theorem size_le_append_singleton (cs : List Call) (c : Call) :
    (after cs).size ≤ (after (cs ++ [c])).size := by
  rw [(size_eq_card cs).1, (size_eq_card (cs ++ [c])).1]
  refine Finset.card_le_card fun name h => ?_
  rw [List.mem_toFinset] at h ⊢
  rw [registeredNames_append_singleton]
  exact List.mem_append_left _ h

/-- The prefixes of a list of calls never lose a name. -/
theorem size_take_le (cs : List Call) {j k : ℕ} (h : j ≤ k) :
    (after (cs.take j)).size ≤ (after (cs.take k)).size := by
  induction h with
  | refl => exact le_rfl
  | @step k hjk ih =>
    refine ih.trans ?_
    rw [List.take_add_one]
    cases cs[k]? with
    | none => rw [Option.toList_none, List.append_nil]
    | some c => exact size_le_append_singleton _ c

/-- The answer at a position is that of the store after the calls before it. -/
theorem getElem?_answers {cs : List Call} {k : ℕ} {c : Call} (h : cs[k]? = some c) :
    (answers cs)[k]? = some ((after (cs.take k)).serve c).2 := by
  induction cs using List.reverseRecOn with
  | nil => cases h
  | append_singleton cs d ih =>
    rw [answers_append_singleton]
    rcases Nat.lt_trichotomy k cs.length with hlt | heq | hgt
    · rw [List.getElem?_append_left hlt] at h
      rw [List.getElem?_append_left (by rwa [length_answers]), ih h,
        List.take_append_of_le_length hlt.le]
    · have hd : d = c := by simpa [heq] using h
      simp [heq, hd, length_answers]
    · rw [List.getElem?_eq_none (by simp; omega)] at h
      cases h

/-- **A new store is a bounded map**, over every list of calls. -/
theorem boundedMap_of_calls (cs : List Call) : BoundedMap cs where
  answer := (Registry.represents_empty.run cs).1
  get := (Registry.represents_empty.run cs).2.get
  atomic k c e hc he := by
    rw [getElem?_answers hc, Option.some.injEq] at he
    rw [List.take_add_one, hc, Option.toList_some, after_append_singleton]
    exact serve_of_refused he
  present name := (mem_registeredNames_iff cs name).symm
  size := (size_eq_card cs).1
  grows _ _ h := size_take_le cs h
  bounded := (size_eq_card cs).2
  long _ h := get?_of_long h

end ParameterStore
end Attitude
