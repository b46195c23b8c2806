/-!
# Raw bytes and their slices

Positions in a source are byte offsets.  A slice by natural offsets is cut to the bytes that exist
and is empty when it ends before it starts.  A slice by integer offsets is the same, except that a
negative offset counts back from the end.

## What is here

* `slice` — a slice by natural offsets, with its length (`length_slice`).
* `sliceAround` — a slice by integer offsets; on natural offsets it is `slice`
  (`sliceAround_natCast`).
-/

set_option autoImplicit false

namespace RubySource

/-- Raw bytes of a source. -/
abbrev Bytes := List UInt8

namespace Bytes

/-- The bytes from `start` up to `stop`, as far as they exist. -/
def slice (bytes : Bytes) (start stop : Nat) : Bytes :=
  (bytes.drop start).take (stop - start)

theorem length_slice (bytes : Bytes) (start stop : Nat) :
    (slice bytes start stop).length = min stop bytes.length - start := by
  simp only [slice, List.length_take, List.length_drop]
  omega

/-- The place an integer offset stands for: a negative one counts back from the end. -/
def place (length : Nat) (offset : Int) : Nat :=
  if offset < 0 then (offset + length).toNat else offset.toNat

/-- The bytes between two integer offsets, as far as they exist. -/
def sliceAround (bytes : Bytes) (start stop : Int) : Bytes :=
  slice bytes (place bytes.length start) (place bytes.length stop)

/-- On natural offsets the two slices are one. -/
theorem sliceAround_natCast (bytes : Bytes) (start stop : Nat) :
    sliceAround bytes start stop = slice bytes start stop := by
  have hstart : ¬ ((start : Int) < 0) := by omega
  have hstop : ¬ ((stop : Int) < 0) := by omega
  simp [sliceAround, place, hstart, hstop]

end Bytes
end RubySource
