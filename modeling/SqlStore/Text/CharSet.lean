/-!
# Sets of characters

A set of characters is a list of closed ranges of code points, as the Unicode standard gives its
properties. `mem_iff` reads membership off the ranges.
-/
namespace SqlStore
set_option autoImplicit false

structure CharSet where
  ranges : List (Nat × Nat)

namespace CharSet

def contains (set : CharSet) (c : Char) : Bool :=
  set.ranges.any fun range => range.1 ≤ c.toNat && c.toNat ≤ range.2

instance : Membership Char CharSet where
  mem set c := set.contains c = true

instance (c : Char) (set : CharSet) : Decidable (c ∈ set) :=
  inferInstanceAs (Decidable (set.contains c = true))

theorem mem_iff {c : Char} {set : CharSet} :
    c ∈ set ↔ ∃ range ∈ set.ranges, range.1 ≤ c.toNat ∧ c.toNat ≤ range.2 := by
  simp [Membership.mem, contains]

end CharSet
end SqlStore
