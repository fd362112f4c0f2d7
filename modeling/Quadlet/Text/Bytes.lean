/-!
# Bytes — the octets of a stream

A stream, a code and a digit string are all lists of octets.  Lists, not arrays: every reader below takes a
prefix and hands on what follows it, and `List.take`, `List.drop` and `++` are what its laws speak of.
-/
namespace Quadlet

/-- A string of octets. -/
abbrev Bytes := List UInt8

namespace Bytes

/-- The octets of a text, in UTF-8. -/
def ofString (s : String) : Bytes := s.toUTF8.data.toList

/-- No octet has its top bit set. -/
def isAscii (b : Bytes) : Bool := b.all (· < 0x80)

/-- The text whose characters have the octets as code points; for ASCII octets, the text itself. -/
def toLatin (b : Bytes) : String := String.ofList (b.map (fun c => Char.ofNat c.toNat))

/-- The octets at offsets `start ≤ i < stop`. -/
def slice (b : Bytes) (start stop : Nat) : Bytes := (b.take stop).drop start

theorem length_slice (b : Bytes) (start stop : Nat) (h : stop ≤ b.length) :
    (b.slice start stop).length = stop - start := by
  rw [slice, List.length_drop, List.length_take, Nat.min_eq_left h]

/-- What follows a slice does not change it. -/
theorem slice_append (b c : Bytes) (start stop : Nat) (h : stop ≤ b.length) :
    Bytes.slice (b ++ c) start stop = b.slice start stop := by
  rw [slice, slice, List.take_append_of_le_length h]

/-- What precedes a slice shifts it. -/
theorem slice_append_left (b c : Bytes) (start stop : Nat) :
    Bytes.slice (b ++ c) (b.length + start) (b.length + stop) = c.slice start stop := by
  rw [slice, slice, List.take_length_add_append, List.drop_length_add_append]

theorem take_append_slice (b : Bytes) {start stop : Nat} (h : start ≤ stop) :
    b.take start ++ b.slice start stop = b.take stop := by
  have hsplit := List.take_append_drop start (b.take stop)
  rw [List.take_take, Nat.min_eq_left h] at hsplit
  exact hsplit

/-- Strings that agree up to `n` agree before it. -/
theorem take_eq_of_le {b c : Bytes} {m n : Nat} (h : b.take n = c.take n) (hmn : m ≤ n) : b.take m = c.take m := by
  have htake := congrArg (List.take m) h
  rw [List.take_take, List.take_take, Nat.min_eq_left hmn] at htake
  exact htake

theorem slice_eq_of_le {b c : Bytes} {start stop n : Nat} (h : b.take n = c.take n) (hn : stop ≤ n) :
    b.slice start stop = c.slice start stop := by
  rw [slice, slice, take_eq_of_le h hn]

theorem le_length_of_take_eq {b c : Bytes} {n : Nat} (h : b.take n = c.take n) (hn : n ≤ c.length) : n ≤ b.length := by
  have hlen := congrArg List.length h
  rw [List.length_take, List.length_take] at hlen
  omega

theorem head?_eq_of_take_eq {b c : Bytes} {n : Nat} (hn : 0 < n) (h : b.take n = c.take n) : b.head? = c.head? := by
  have hhead := congrArg List.head? h
  rw [List.head?_take, List.head?_take, if_neg (by omega), if_neg (by omega)] at hhead
  exact hhead

theorem isAscii_append (b c : Bytes) : isAscii (b ++ c) = (isAscii b && isAscii c) := by
  rw [isAscii, List.all_append]
  rfl

end Bytes
end Quadlet
