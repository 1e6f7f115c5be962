import Attitude.Vec3

/-!
# Matrices of fixed dimensions

A matrix stores its rows, so an entry of an intermediate result is computed once and then read.
Every operation is defined by its entries through `Mat.ofFn`, and `Mat.get_ofFn` is the one fact
that a proof needs about the storage.

A product adds its terms from the first column to the last and starts with the first term itself:
adding to an initial zero would turn a product `-0.0` into `0.0`. For the same reason
`Mat.addDiagonal` leaves entries off the diagonal alone.

## Main definitions

* `Mat`, `Mat.ofFn`, `Mat.dot` and the product of two matrices
* `Mat.beside`, `Mat.above`: blocks of a six-dimensional matrix
* `Mat.skew`: the matrix of the cross product
* `Mat.isSymmetric`, `Mat.isFinite`
-/

namespace Attitude

/-- An `m` by `n` matrix, stored by rows. -/
structure Mat (m n : Nat) (α : Type) where
  rows : Vector (Vector α n) m

namespace Mat
variable {m k n : Nat} {α : Type}

/-- The matrix with the given entries, each evaluated once. -/
def ofFn (f : Fin m → Fin n → α) : Mat m n α := ⟨Vector.ofFn fun i => Vector.ofFn (f i)⟩

/-- The entry in row `i` and column `j`. -/
def get (a : Mat m n α) (i : Fin m) (j : Fin n) : α := a.rows[i][j]

/-- A matrix is read as the function of its entries. -/
instance : CoeFun (Mat m n α) (fun _ => Fin m → Fin n → α) := ⟨get⟩

@[simp] theorem get_ofFn (f : Fin m → Fin n → α) (i : Fin m) (j : Fin n) :
    (ofFn f) i j = f i j := by
  simp [ofFn, get]

/-- Matrices with the same entries are equal. -/
@[ext] theorem ext {a b : Mat m n α} (h : ∀ i j, a i j = b i j) : a = b := by
  obtain ⟨a⟩ := a
  obtain ⟨b⟩ := b
  congr 1
  apply Vector.ext
  intro i hi
  apply Vector.ext
  intro j hj
  exact h ⟨i, hi⟩ ⟨j, hj⟩

def transpose (a : Mat m n α) : Mat n m α := ofFn fun i j => a j i

@[simp] theorem get_transpose (a : Mat m n α) (i : Fin n) (j : Fin m) :
    a.transpose i j = a j i := by simp [transpose]

/-- The column with the given components. -/
def column (v : Vec3 α) : Mat 3 1 α := ⟨#v[#v[v.x], #v[v.y], #v[v.z]]⟩

/-- The components of a column. -/
def toVec3 (a : Mat 3 1 α) : Vec3 α := ⟨a 0 0, a 1 0, a 2 0⟩

@[simp] theorem toVec3_column (v : Vec3 α) : (column v).toVec3 = v := rfl

/-- The matrix with three given rows. -/
def ofRows (r₀ r₁ r₂ : Vec3 α) : Mat 3 3 α :=
  ⟨#v[#v[r₀.x, r₀.y, r₀.z], #v[r₁.x, r₁.y, r₁.z], #v[r₂.x, r₂.y, r₂.z]]⟩

/-- The matrix with three given columns. -/
def ofColumns (c₀ c₁ c₂ : Vec3 α) : Mat 3 3 α := (ofRows c₀ c₁ c₂).transpose

/-! ## Entries by axis

The entry that carries the second axis to the first one. -/

abbrev xx (m : Mat 3 3 α) : α := m 0 0
abbrev xy (m : Mat 3 3 α) : α := m 0 1
abbrev xz (m : Mat 3 3 α) : α := m 0 2
abbrev yx (m : Mat 3 3 α) : α := m 1 0
abbrev yy (m : Mat 3 3 α) : α := m 1 1
abbrev yz (m : Mat 3 3 α) : α := m 1 2
abbrev zx (m : Mat 3 3 α) : α := m 2 0
abbrev zy (m : Mat 3 3 α) : α := m 2 1
abbrev zz (m : Mat 3 3 α) : α := m 2 2

/-! ## Blocks -/

/-- Two blocks of three columns, the first one to the left. -/
def beside (a b : Mat m 3 α) : Mat m 6 α :=
  ofFn fun i j => if h : j.val < 3 then a i ⟨j, h⟩ else b i ⟨j - 3, by omega⟩

/-- Two blocks of three rows, the first one on top. -/
def above (a b : Mat 3 n α) : Mat 6 n α :=
  ofFn fun i j => if h : i.val < 3 then a ⟨i, h⟩ j else b ⟨i - 3, by omega⟩ j

/-- The first three rows. -/
def upper (a : Mat 6 n α) : Mat 3 n α := ofFn fun i j => a ⟨i.val, by omega⟩ j

/-- The last three rows. -/
def lower (a : Mat 6 n α) : Mat 3 n α := ofFn fun i j => a ⟨i.val + 3, by omega⟩ j

@[simp] theorem get_upper (a : Mat 6 n α) (i : Fin 3) (j : Fin n) :
    a.upper i j = a ⟨i.val, by omega⟩ j := get_ofFn _ i j

@[simp] theorem get_lower (a : Mat 6 n α) (i : Fin 3) (j : Fin n) :
    a.lower i j = a ⟨i.val + 3, by omega⟩ j := get_ofFn _ i j

@[simp] theorem upper_above (a b : Mat 3 n α) : (above a b).upper = a := by
  ext i j
  simp [above]

@[simp] theorem lower_above (a b : Mat 3 n α) : (above a b).lower = b := by
  ext i j
  simp only [above, get_lower, get_ofFn]
  exact dif_neg (by omega)

/-- Every pair of an index and a larger one. -/
def indexPairs (n : Nat) : List (Fin n × Fin n) :=
  (List.finRange n).flatMap fun i => ((List.finRange n).filter (i < ·)).map fun j => (i, j)

@[simp] theorem mem_indexPairs {i j : Fin n} : (i, j) ∈ indexPairs n ↔ i < j := by
  simp only [indexPairs, List.mem_flatMap, List.mem_map, List.mem_filter, List.mem_finRange,
    true_and, decide_eq_true_eq, Prod.mk.injEq]
  constructor
  · rintro ⟨_, _, h, rfl, rfl⟩
    exact h
  · exact fun h => ⟨i, j, h, rfl, rfl⟩

/-! ## Arithmetic -/

variable [Scalar α]

/-- The sum of the products of corresponding terms, from the first to the last. -/
def dot : {k : Nat} → (Fin k → α) → (Fin k → α) → α
  | 0, _, _ => 0.0
  | k + 1, a, b => Fin.foldl k (fun sum i => a i.succ * b i.succ + sum) (a 0 * b 0)

instance : HMul (Mat m k α) (Mat k n α) (Mat m n α) :=
  ⟨fun a b => ofFn fun i j => dot (a i) fun l => b l j⟩

instance : HMul (Mat m n α) α (Mat m n α) := ⟨fun a c => ofFn fun i j => a i j * c⟩

instance : Sub (Mat m n α) := ⟨fun a b => ofFn fun i j => a i j - b i j⟩

@[simp] theorem get_mul (a : Mat m k α) (b : Mat k n α) (i : Fin m) (j : Fin n) :
    (a * b) i j = dot (a i) fun l => b l j := get_ofFn _ i j

@[simp] theorem get_scale (a : Mat m n α) (c : α) (i : Fin m) (j : Fin n) :
    (a * c) i j = a i j * c := get_ofFn _ i j

@[simp] theorem get_sub (a b : Mat m n α) (i : Fin m) (j : Fin n) :
    (a - b) i j = a i j - b i j := get_ofFn _ i j

/-- The product of a matrix and the transpose of another. -/
def mulTranspose (a : Mat m k α) (b : Mat n k α) : Mat m n α := a * b.transpose

@[simp] theorem get_mulTranspose (a : Mat m k α) (b : Mat n k α) (i : Fin m) (j : Fin n) :
    (a.mulTranspose b) i j = dot (a i) (b j) := by simp [mulTranspose]

def zero : Mat m n α := ofFn fun _ _ => 0.0

def identity : Mat n n α := ofFn fun i j => if i = j then 1.0 else 0.0

@[simp] theorem get_zero (i : Fin m) (j : Fin n) : (zero : Mat m n α) i j = 0.0 := get_ofFn _ i j

@[simp] theorem get_identity (i j : Fin n) :
    (identity : Mat n n α) i j = if i = j then 1.0 else 0.0 := get_ofFn _ i j

/-- The diagonal matrix whose first three entries are `upper` and whose last three are `lower`. -/
def blockDiagonal (upper lower : α) : Mat 6 6 α :=
  ofFn fun i j => if i = j then (if i.val < 3 then upper else lower) else 0.0

/-- Add to the diagonal, and to nothing else. -/
def addDiagonal (a : Mat n n α) (d : Fin n → α) : Mat n n α :=
  ofFn fun i j => if i = j then a i j + d i else a i j

@[simp] theorem get_addDiagonal (a : Mat n n α) (d : Fin n → α) (i j : Fin n) :
    (a.addDiagonal d) i j = if i = j then a i j + d i else a i j := get_ofFn _ i j

/-- The matrix of the cross product with `v`. -/
def skew (v : Vec3 α) : Mat 3 3 α :=
  ofRows ⟨0.0, -v.z, v.y⟩ ⟨v.z, 0.0, -v.x⟩ ⟨-v.y, v.x, 0.0⟩

/-- Every entry is finite. -/
def isFinite (a : Mat m n α) : Bool := a.rows.toList.all fun row => allFinite row.toList

/-- No entry above the diagonal differs by more than `tolerance` from the one across it. A pair
whose difference is undefined is not found to differ. -/
def isSymmetric (a : Mat n n α) (tolerance : α) : Bool :=
  (indexPairs n).all fun (i, j) => !decide (tolerance < Scalar.abs (a i j - a j i))

end Mat
end Attitude
