import Mathlib.Algebra.Ring.Nat
import Mathlib.Data.List.Basic
import Mathlib.Tactic.Common

/-!
# Cutting and framing octet strings

Two things every length-prefixed format needs: cutting a list into consecutive
records of a fixed size, and 32-bit big-endian lengths.
-/

namespace Octets

/-! ## Records of a fixed size -/

/-- Consecutive records of `size` elements (at least one), the last one possibly
shorter. -/
def chunks {α : Type*} (size : ℕ) : List α → List (List α)
  | [] => []
  | head :: tail => (head :: tail.take (size - 1)) :: chunks size (tail.drop (size - 1))
termination_by data => data.length
decreasing_by simp only [List.length_drop, List.length_cons]; omega

variable {α : Type*}

@[simp] theorem chunks_nil (size : ℕ) : chunks size ([] : List α) = [] := by
  rw [chunks]

/-- Nothing is lost by cutting. -/
theorem flatten_chunks (size : ℕ) (data : List α) : (chunks size data).flatten = data := by
  fun_induction chunks size data with
  | case1 => rfl
  | case2 head tail ih => simp [ih]

/-- Cutting undoes the concatenation of records of the given size. -/
theorem chunks_flatten {size : ℕ} (hsize : 0 < size) {records : List (List α)}
    (hrecords : ∀ record ∈ records, record.length = size) :
    chunks size records.flatten = records := by
  induction records with
  | nil => simp
  | cons record rest ih =>
      rw [List.forall_mem_cons] at hrecords
      cases record with
      | nil =>
          have := hrecords.1
          simp only [List.length_nil] at this
          omega
      | cons head tail =>
          have htail : tail.length = size - 1 := by
            have := hrecords.1
            simp only [List.length_cons] at this
            omega
          rw [List.flatten_cons, List.cons_append, chunks, ← htail, List.take_left, List.drop_left,
            ih hrecords.2]

/-! ## Big-endian 32-bit lengths -/

/-- The four big-endian octets of a number below `2 ^ 32`. -/
def toBeBytes (n : ℕ) : List UInt8 :=
  [UInt8.ofNat (n / 2 ^ 24), UInt8.ofNat (n / 2 ^ 16), UInt8.ofNat (n / 2 ^ 8), UInt8.ofNat n]

/-- The number read from big-endian octets. -/
def ofBeBytes (octets : List UInt8) : ℕ :=
  octets.foldl (fun value octet => value * 256 + octet.toNat) 0

@[simp] theorem length_toBeBytes (n : ℕ) : (toBeBytes n).length = 4 :=
  rfl

theorem ofBeBytes_toBeBytes {n : ℕ} (hn : n < 2 ^ 32) : ofBeBytes (toBeBytes n) = n := by
  simp only [ofBeBytes, toBeBytes, List.foldl_cons, List.foldl_nil, UInt8.toNat_ofNat']
  omega

/-- Four octets are the encoding of the number they spell. -/
theorem toBeBytes_ofBeBytes {octets : List UInt8} (hlength : octets.length = 4) :
    toBeBytes (ofBeBytes octets) = octets := by
  obtain ⟨a, b, c, d, rfl⟩ := List.length_eq_four.mp hlength
  have ha := a.toNat_lt
  have hb := b.toNat_lt
  have hc := c.toNat_lt
  have hd := d.toNat_lt
  simp only [ofBeBytes, toBeBytes, List.foldl_cons, List.foldl_nil, List.cons.injEq,
    ← UInt8.toNat_inj, UInt8.toNat_ofNat', and_true]
  refine ⟨?_, ?_, ?_, ?_⟩ <;> omega

end Octets
