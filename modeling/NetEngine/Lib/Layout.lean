import Mathlib.Algebra.GCDMonoid.Nat
import NetEngine.Lib.Regions

/-!
# Layout of objects in memory

Members of a class lie one behind the other, each at the next multiple of its
alignment, and the size of the class is a multiple of the alignment of all of
them.  Of blocks laid out at equal distances all are aligned when the first one
and the distance are, and with more than one block only then.
-/

namespace NetEngine

section RoundUp

/-- The next multiple of `a`. -/
def roundUp (n a : Nat) : Nat :=
  n / a * a + (if n % a ≠ 0 then a else 0)

end RoundUp

section Members

/-- Size and alignment of a member. -/
structure ClassMember where
  size : Nat
  align : Nat

/-- Alignment of a class; of powers of two this is the largest. -/
def classAlign (members : List ClassMember) : Nat :=
  members.foldr (fun m a => Nat.lcm m.align a) 1

/-- Where the last member ends. -/
def membersEnd (members : List ClassMember) : Nat :=
  members.foldl (fun offset m => roundUp offset m.align + m.size) 0

def classSize (members : List ClassMember) : Nat :=
  roundUp (membersEnd members) (classAlign members)

end Members

section Strided

variable {a base stride count : Nat}

theorem dvd_blockAt (hbase : a ∣ base) (hstride : a ∣ stride) (i : Nat) :
    a ∣ blockAt base stride i :=
  Nat.dvd_add hbase (hstride.mul_left i)

/-- With more than one block the distance decides. -/
theorem dvd_blockAt_iff (hbase : a ∣ base) :
    (∀ i, i < count → a ∣ blockAt base stride i) ↔
      count ≤ 1 ∨ a ∣ stride := by
  constructor
  · intro h
    rcases Nat.lt_or_ge 1 count with hcount | hcount
    · have hsecond : a ∣ base + 1 * stride := h 1 hcount
      rw [Nat.one_mul] at hsecond
      exact Or.inr ((Nat.dvd_add_right hbase).mp hsecond)
    · exact Or.inl hcount
  · rintro (hcount | hstride) i hi
    · obtain rfl : i = 0 := by omega
      rw [blockAt_zero]
      exact hbase
    · exact dvd_blockAt hbase hstride i

end Strided

end NetEngine
