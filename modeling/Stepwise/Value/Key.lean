import Stepwise.Number.Double

/-!
The keys of dicts.

Two keys are equal if their values are, across numbers of different types; a NaN equals itself as a
key.  `Key.digest` is what a table files a key under, and a look-up finds an equal key only under
its own digest.
-/

namespace Stepwise

/-- A number of either type. -/
inductive Number where
  | int (value : Int64)
  | float (value : Number.Double)

namespace Number

def toDouble : Number → Double
  | .int value => .ofFloat (nearest value.toInt)
  | .float value => value

def toFloat : Number → Float
  | .int value => nearest value.toInt
  | .float value => value.toFloat

/-- Equality of numbers; integers are compared with doubles as doubles. -/
def equal : Number → Number → Bool
  | .int a, .int b => a == b
  | a, b => a.toFloat == b.toFloat

/-- The order of two numbers, unless a NaN is involved. -/
def order? : Number → Number → Option Ordering
  | .int a, .int b => some (compare a.toInt b.toInt)
  | a, b =>
      if a.toFloat < b.toFloat then some .lt
      else if b.toFloat < a.toFloat then some .gt
      else if a.toFloat == b.toFloat then some .eq
      else none

end Number

/-- The values that can be keys. -/
inductive Key where
  | none
  | bool (value : Bool)
  | int (value : Int64)
  | float (value : Number.Double)
  | str (content : String)
  | tuple (items : List Key)

/-- What a key is filed under: whole numbers by their value, other doubles by their bits. -/
inductive Digest where
  | none
  | whole (value : Int)
  | bits (value : UInt64)
  | text (content : String)
  | tuple (items : List Digest)
  deriving Repr

namespace Digest

mutual

/-- Whether two digests are the same. -/
def equal : Digest → Digest → Bool
  | .none, .none => true
  | .whole a, .whole b => a == b
  | .bits a, .bits b => a == b
  | .text a, .text b => a == b
  | .tuple a, .tuple b => equalItems a b
  | _, _ => false

def equalItems : List Digest → List Digest → Bool
  | [], [] => true
  | a :: as, b :: bs => a.equal b && equalItems as bs
  | _, _ => false

end

instance : BEq Digest := ⟨equal⟩

mutual

theorem equal_refl (digest : Digest) : digest.equal digest = true := by
  match digest with
  | .none => rfl
  | .whole _ | .bits _ | .text _ => exact beq_self_eq_true _
  | .tuple items => exact equalItems_refl items

theorem equalItems_refl (items : List Digest) : equalItems items items = true := by
  match items with
  | [] => rfl
  | item :: rest => rw [equalItems, item.equal_refl, equalItems_refl rest]; rfl

end

mutual

theorem eq_of_equal {a b : Digest} (same : a.equal b = true) : a = b := by
  match a, b, same with
  | .none, .none, _ => rfl
  | .whole _, .whole _, same | .bits _, .bits _, same | .text _, .text _, same =>
      exact congrArg _ (eq_of_beq same)
  | .tuple _, .tuple _, same => exact congrArg _ (eq_of_equalItems same)

theorem eq_of_equalItems {as bs : List Digest} (same : equalItems as bs = true) : as = bs := by
  match as, bs, same with
  | [], [], _ => rfl
  | a :: as, b :: bs, same =>
      rw [equalItems, Bool.and_eq_true] at same
      rw [eq_of_equal same.1, eq_of_equalItems same.2]

end

instance : LawfulBEq Digest where
  eq_of_beq := eq_of_equal
  rfl := equal_refl _

end Digest

namespace Key

def ofBool (value : Bool) : Int64 := if value then 1 else 0

def number? : Key → Option Number
  | .bool value => some (.int (ofBool value))
  | .int value => some (.int value)
  | .float value => some (.float value)
  | _ => Option.none

/-- Equality of numbers as keys: a NaN equals any NaN. -/
def sameNumber : Number → Number → Bool
  | .float a, .float b => (a.isNaN && b.isNaN) || a.toFloat == b.toFloat
  | a, b => a.equal b

mutual

def equal : Key → Key → Bool
  | .none, .none => true
  | .str a, .str b => a == b
  | .tuple a, .tuple b => equalItems a b
  | a, b =>
      match a.number?, b.number? with
      | some x, some y => sameNumber x y
      | _, _ => false

def equalItems : List Key → List Key → Bool
  | [], [] => true
  | a :: as, b :: bs => a.equal b && equalItems as bs
  | _, _ => false

end

/-- What a number is filed under.  Doubles too large for 64 bits are filed by their bits. -/
def numberDigest : Number → Digest
  | .int value => .whole value.toInt
  | .float value =>
      let size := value.toFloat
      if Number.isIntegral size && size.abs < 9.2e18 then
        .whole ((Number.integer? .towardZero size).getD 0)
      else .bits value.bits

mutual

def digest : Key → Digest
  | .none => .none
  | .bool value => numberDigest (.int (ofBool value))
  | .int value => numberDigest (.int value)
  | .float value => numberDigest (.float value)
  | .str content => .text content
  | .tuple items => .tuple (digests items)

def digests : List Key → List Digest
  | [] => []
  | item :: rest => item.digest :: digests rest

end

/-- Whether a look-up for one key stops at the other.  A table that compares a few bits of the digests
may stop by chance at an equal key that is filed elsewhere; nothing can rely on that, and here it never
does. -/
def finds (a b : Key) : Bool := a.digest == b.digest && a.equal b

end Key

end Stepwise
