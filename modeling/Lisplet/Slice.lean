/-! # Slices

Parts of a sequence between two positions that are given as any two integers. -/

namespace Lisplet.Slice

/-- The position that an integer means in a sequence of `length` elements, brought into the
    sequence. -/
def clamp (i : Int) (length : Nat) : Nat := min i.toNat length

/-- Like `clamp`, but a negative integer counts from the end. -/
def resolve (i : Int) (length : Nat) : Nat := clamp (if i < 0 then length + i else i) length

/-- The elements from position `start` up to, but not including, position `stop`. -/
def between (start stop : Nat) (xs : List α) : List α := (xs.drop start).take (stop - start)

end Lisplet.Slice
