import Quadlet.Error
/-!
# Machine sizes — what a word does not hold, and what a text does not have

Sizes, counts and offsets are words of 64 bits.  A sum or a product that is too great for a word loses what is above
it, and nothing says so (`wrap`).  Offsets that are out of order, or beyond their text, have no slice; a program stops
there, which stands among the errors as one that no reader recovers from (`part`).  No memory holds a text of as many
octets as `textBound`, so a sum or a product of the length of a text that is there, or of a number of ten digits, is
written as the plain one.
-/
namespace Quadlet

/-! ## Words -/

/-- What a word holds of a number. -/
def wrap (n : Nat) : Nat := n % UInt64.size

theorem wrap_of_lt {n : Nat} (h : n < UInt64.size) : wrap n = n := Nat.mod_eq_of_lt h

/-- The difference of two words; one below zero wraps around as well. -/
def wrapSub (a b : Nat) : Nat := wrap (a + UInt64.size - b)

theorem wrapSub_of_le {a b : Nat} (ha : a < UInt64.size) (h : b ≤ a) : wrapSub a b = a - b := by
  rw [wrapSub, Nat.sub_add_comm h, wrap, Nat.add_mod_right, Nat.mod_eq_of_lt (Nat.lt_of_le_of_lt (Nat.sub_le a b) ha)]

/-! ## Slices -/

/-- More octets than a text has: a quarter of those that a word counts. -/
def textBound : Nat := UInt64.size / 4

/-- The octets at offsets `start ≤ i < stop`, if there are such. -/
def part (b : Bytes) (start stop : Nat) : Except DecodeError Bytes :=
  if start ≤ stop ∧ stop ≤ b.length then .ok (b.slice start stop)
  else .error (.argument (.outOfBounds start stop b.length))

theorem part_eq_ok {b text : Bytes} {start stop : Nat} :
    part b start stop = .ok text ↔ start ≤ stop ∧ stop ≤ b.length ∧ text = b.slice start stop := by
  unfold part
  split
  · next h => exact ⟨fun ht => ⟨h.1, h.2, (Except.ok.inj ht).symm⟩, fun ht => congrArg Except.ok ht.2.2.symm⟩
  · next h => exact ⟨fun ht => (by cases ht), fun ht => absurd ⟨ht.1, ht.2.1⟩ h⟩

end Quadlet
