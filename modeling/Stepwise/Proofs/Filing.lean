import Mathlib
import Stepwise.Proofs.Doubles
import Stepwise.Value.Dict

/-!
Where keys are filed.

A look-up finds an equal key only under its own digest.  Equality of keys compares numbers of
different types as doubles, while the digest of an integer keeps all its bits, so the two agree only
where an integer is exactly the value of its double.
-/

namespace Stepwise

mutual

/-- Two keys differ only in their numbers, and numbers at the same place are related. -/
inductive Key.Matches (related : Number → Number → Prop) : Key → Key → Prop where
  | none : Key.Matches related .none .none
  | str (content : String) : Key.Matches related (.str content) (.str content)
  | number {a b : Key} {x y : Number} : a.number? = some x → b.number? = some y → related x y →
      Key.Matches related a b
  | tuple {as bs : List Key} : ItemsMatch related as bs →
      Key.Matches related (.tuple as) (.tuple bs)

/-- The items at the same places of two lists of the same length match. -/
inductive ItemsMatch (related : Number → Number → Prop) : List Key → List Key → Prop where
  | nil : ItemsMatch related [] []
  | cons {a b : Key} {as bs : List Key} : Key.Matches related a b → ItemsMatch related as bs →
      ItemsMatch related (a :: as) (b :: bs)

end

namespace Key

variable {related other : Number → Number → Prop} {a b c : Key} {x y : Number}

theorem equal_of_numbers (first : a.number? = some x) (second : b.number? = some y) :
    a.equal b = sameNumber x y := by
  cases a <;> cases first <;> cases b <;> cases second <;> rfl

theorem digest_of_number (found : a.number? = some x) : a.digest = numberDigest x := by
  cases a <;> cases found <;> rfl

theorem isSome_number_of_equal (same : a.equal b = true) :
    a.number?.isSome = b.number?.isSome := by
  cases a <;> cases b <;> first | rfl | (exact absurd same Bool.false_ne_true)

theorem numberDigest_cases (x : Number) :
    (∃ value, numberDigest x = .whole value) ∨ ∃ bits, numberDigest x = .bits bits := by
  cases x with
  | int value => exact .inl ⟨_, rfl⟩
  | float value =>
      unfold numberDigest
      simp only
      split
      · exact .inl ⟨_, rfl⟩
      · exact .inr ⟨_, rfl⟩

theorem isSome_number_of_digest (same : a.digest = b.digest) :
    a.number?.isSome = b.number?.isSome := by
  have isNumber : ∀ key : Key, key.number?.isSome =
      match key.digest with
      | .whole _ | .bits _ => true
      | _ => false := by
    intro key
    cases found : key.number? with
    | none => cases key <;> first | rfl | cases found
    | some x =>
        rw [digest_of_number found]
        rcases numberDigest_cases x with ⟨_, form⟩ | ⟨_, form⟩ <;> rw [form] <;> rfl
  rw [isNumber a, isNumber b, same]

theorem matches_tuple {as bs : List Key} :
    (tuple as).Matches related (.tuple bs) ↔ ItemsMatch related as bs := by
  constructor
  · intro found
    cases found with
    | number first => cases first
    | tuple items => exact items
  · exact .tuple

theorem itemsMatch_cons {as bs : List Key} :
    ItemsMatch related (a :: as) (b :: bs) ↔ a.Matches related b ∧ ItemsMatch related as bs := by
  constructor
  · rintro (_ | ⟨first, rest⟩)
    exact ⟨first, rest⟩
  · rintro ⟨first, rest⟩
    exact .cons first rest

theorem matches_iff_of_numbers (first : a.number? = some x) (second : b.number? = some y) :
    a.Matches related b ↔ related x y := by
  constructor
  · intro found
    cases found with
    | none => cases first
    | str content => cases first
    | number isFirst isSecond holds =>
        cases first.symm.trans isFirst
        cases second.symm.trans isSecond
        exact holds
    | tuple items => cases first
  · exact .number first second

end Key

section

variable {related other : Number → Number → Prop}

mutual

theorem Key.Matches.refl (reflexive : ∀ x, related x x) (key : Key) : key.Matches related key := by
  match key with
  | .none => exact .none
  | .str content => exact .str content
  | .tuple items => exact .tuple (ItemsMatch.refl reflexive items)
  | .bool _ | .int _ | .float _ => exact .number rfl rfl (reflexive _)

theorem ItemsMatch.refl (reflexive : ∀ x, related x x) (items : List Key) :
    ItemsMatch related items items := by
  match items with
  | [] => exact .nil
  | item :: rest => exact .cons (.refl reflexive item) (.refl reflexive rest)

end

mutual

theorem Key.Matches.symm (symmetric : ∀ x y, related x y → related y x) {a b : Key}
    (found : a.Matches related b) : b.Matches related a := by
  match found with
  | .none => exact .none
  | .str content => exact .str content
  | .number first second holds => exact .number second first (symmetric _ _ holds)
  | .tuple items => exact .tuple (items.symm symmetric)

theorem ItemsMatch.symm (symmetric : ∀ x y, related x y → related y x) {as bs : List Key}
    (found : ItemsMatch related as bs) : ItemsMatch related bs as := by
  match found with
  | .nil => exact .nil
  | .cons first rest => exact .cons (first.symm symmetric) (rest.symm symmetric)

end

mutual

theorem Key.Matches.comp {joined : Number → Number → Prop}
    (joins : ∀ x y z, related x y → other y z → joined x z) {a b c : Key}
    (found : a.Matches related b) (behind : b.Matches other c) : a.Matches joined c := by
  match found with
  | .none =>
      cases behind with
      | none => exact .none
      | number first => cases first
  | .str content =>
      cases behind with
      | str => exact .str content
      | number first => cases first
  | .number first second holds =>
      cases behind with
      | none => cases second
      | str => cases second
      | number third fourth holdsToo =>
          cases second.symm.trans third
          exact .number first fourth (joins _ _ _ holds holdsToo)
      | tuple => cases second
  | .tuple items =>
      cases behind with
      | number first => cases first
      | tuple itemsToo => exact .tuple (items.comp joins itemsToo)

theorem ItemsMatch.comp {joined : Number → Number → Prop}
    (joins : ∀ x y z, related x y → other y z → joined x z) {as bs cs : List Key}
    (found : ItemsMatch related as bs) (behind : ItemsMatch other bs cs) :
    ItemsMatch joined as cs := by
  match found, behind with
  | .nil, .nil => exact .nil
  | .cons first rest, .cons firstToo restToo =>
      exact .cons (first.comp joins firstToo) (rest.comp joins restToo)

end

mutual

/-- Where keys match, two relations that say the same of the numbers there are the same. -/
theorem Key.Matches.congr {known : Number → Number → Prop}
    (same : ∀ x y, known x y → (related x y ↔ other x y)) {a b : Key}
    (found : a.Matches known b) : a.Matches related b ↔ a.Matches other b := by
  match found with
  | .none => exact ⟨fun _ => .none, fun _ => .none⟩
  | .str content => exact ⟨fun _ => .str content, fun _ => .str content⟩
  | .number first second holds =>
      rw [Key.matches_iff_of_numbers first second, Key.matches_iff_of_numbers first second,
        same _ _ holds]
  | .tuple items =>
      rw [Key.matches_tuple, Key.matches_tuple, items.congr same]

theorem ItemsMatch.congr {known : Number → Number → Prop}
    (same : ∀ x y, known x y → (related x y ↔ other x y)) {as bs : List Key}
    (found : ItemsMatch known as bs) : ItemsMatch related as bs ↔ ItemsMatch other as bs := by
  match found with
  | .nil => exact ⟨fun _ => .nil, fun _ => .nil⟩
  | .cons first rest =>
      rw [Key.itemsMatch_cons, Key.itemsMatch_cons, first.congr same, rest.congr same]

end

end

def Number.Same (x y : Number) : Prop := Key.sameNumber x y = true

def Number.FiledTogether (x y : Number) : Prop := Key.numberDigest x = Key.numberDigest y

mutual

theorem Key.matches_of_equal (a b : Key) (same : a.equal b = true) :
    a.Matches Number.Same b := by
  match a with
  | .none => cases b <;> first | exact .none | cases same
  | .str content =>
      cases b with
      | str other => exact eq_of_beq same ▸ .str content
      | _ => cases same
  | .tuple as =>
      cases b with
      | tuple bs => exact .tuple (itemsMatch_of_equal as bs same)
      | _ => cases same
  | .bool _ | .int _ | .float _ =>
      obtain ⟨y, second⟩ := Option.isSome_iff_exists.mp (Key.isSome_number_of_equal same).symm
      exact .number rfl second ((Key.equal_of_numbers rfl second).symm.trans same)

theorem itemsMatch_of_equal (as bs : List Key) (same : Key.equalItems as bs = true) :
    ItemsMatch Number.Same as bs := by
  match as, bs, same with
  | [], [], _ => exact .nil
  | a :: as, b :: bs, same =>
      rw [Key.equalItems, Bool.and_eq_true] at same
      exact .cons (a.matches_of_equal b same.1) (itemsMatch_of_equal as bs same.2)

end

mutual

theorem Key.Matches.equal {a b : Key} (found : a.Matches Number.Same b) : a.equal b = true := by
  match found with
  | .none => rfl
  | .str content => exact beq_self_eq_true content
  | .number first second holds => exact (Key.equal_of_numbers first second).trans holds
  | .tuple items => exact items.equalItems

theorem ItemsMatch.equalItems {as bs : List Key} (found : ItemsMatch Number.Same as bs) :
    Key.equalItems as bs = true := by
  match found with
  | .nil => rfl
  | .cons first rest => rw [Key.equalItems, first.equal, rest.equalItems]; rfl

end

theorem Key.equal_iff_matches {a b : Key} : a.equal b = true ↔ a.Matches Number.Same b :=
  ⟨a.matches_of_equal b, Matches.equal⟩

mutual

theorem Key.matches_of_digest (a b : Key) (same : a.digest = b.digest) :
    a.Matches Number.FiledTogether b := by
  have alike := Key.isSome_number_of_digest same
  match a with
  | .none => cases b <;> first | exact .none | cases same | cases alike
  | .str content =>
      cases b with
      | str other => exact Digest.text.inj same ▸ .str content
      | _ => first | cases same | cases alike
  | .tuple as =>
      cases b with
      | tuple bs => exact .tuple (itemsMatch_of_digests as bs (Digest.tuple.inj same))
      | _ => first | cases same | cases alike
  | .bool _ | .int _ | .float _ =>
      obtain ⟨y, second⟩ := Option.isSome_iff_exists.mp alike.symm
      exact .number rfl second (same.trans (Key.digest_of_number second))

theorem itemsMatch_of_digests (as bs : List Key) (same : Key.digests as = Key.digests bs) :
    ItemsMatch Number.FiledTogether as bs := by
  match as, bs, same with
  | [], [], _ => exact .nil
  | a :: as, b :: bs, same =>
      rw [Key.digests, Key.digests, List.cons.injEq] at same
      exact .cons (a.matches_of_digest b same.1) (itemsMatch_of_digests as bs same.2)

end

mutual

theorem Key.Matches.digest {a b : Key} (found : a.Matches Number.FiledTogether b) :
    a.digest = b.digest := by
  match found with
  | .none => rfl
  | .str content => rfl
  | .number first second holds =>
      rw [Key.digest_of_number first, Key.digest_of_number second]
      exact holds
  | .tuple items => exact congrArg Digest.tuple items.digests

theorem ItemsMatch.digests {as bs : List Key} (found : ItemsMatch Number.FiledTogether as bs) :
    Key.digests as = Key.digests bs := by
  match found with
  | .nil => rfl
  | .cons first rest => rw [Key.digests, Key.digests, first.digest, rest.digests]

end

theorem Key.digest_eq_iff_matches {a b : Key} :
    a.digest = b.digest ↔ a.Matches Number.FiledTogether b :=
  ⟨a.matches_of_digest b, Matches.digest⟩

namespace Number

/-- Whether two numbers are the same unless both are integers that differ. -/
def SameIntegers : Number → Number → Prop
  | .int m, .int n => m = n
  | _, _ => True

/-- Whether an integer is filed where a double is: it is the value of the double and below the size
from which doubles are filed by their bits. -/
def FiledByValue (n : Int64) (x : Double) : Prop :=
  value? x.toFloat = some (n.toInt : ℚ) ∧ n.toInt.natAbs < 9200000000000000000

def FiledAlike : Number → Number → Prop
  | .int _, .int _ => True
  | .int n, .float x | .float x, .int n => FiledByValue n x
  | .float x, .float y => x.isNaN = true → x.bits = y.bits

theorem Same.refl (x : Number) : x.Same x := by
  cases x with
  | int n => exact beq_self_eq_true n
  | float x =>
      by_cases isNaN : x.isNaN = true
      · simp [Same, Key.sameNumber, isNaN]
      · rw [Double.isNaN, Float.isNaN_eq_decide_eq_nan, decide_eq_true_iff] at isNaN
        simp [Same, Key.sameNumber, isNaN]

theorem Same.symm {x y : Number} (same : x.Same y) : y.Same x := by
  cases x with
  | int m =>
      cases y with
      | int n => exact BEq.symm (α := Int64) same
      | float y => exact BEq.symm (α := Float) same
  | float x =>
      cases y with
      | int n => exact BEq.symm (α := Float) same
      | float y =>
          simp only [Same, Key.sameNumber, Bool.or_eq_true, Bool.and_eq_true] at same ⊢
          exact same.imp And.symm BEq.symm

theorem isNaN_eq_false_of_beq {value : Float} {x : Double} (same : (value == x.toFloat) = true) :
    x.isNaN = false := by
  rw [Double.isNaN, Float.isNaN_eq_decide_eq_nan, decide_eq_false_iff_not]
  exact (Float.beq_iff_ne_nan_and_eq.mp same).2.1

theorem same_float_iff {x y : Double} :
    Same (.float x) (.float y) ↔
      x.isNaN = true ∧ y.isNaN = true ∨ (x.toFloat == y.toFloat) = true := by
  rw [Same, Key.sameNumber, Bool.or_eq_true, Bool.and_eq_true]

theorem beq_of_same_float {value : Float} {x y : Double} (first : (value == x.toFloat) = true)
    (second : Same (.float x) (.float y)) : (value == y.toFloat) = true := by
  rcases same_float_iff.mp second with ⟨isNaN, -⟩ | same
  · exact absurd isNaN (by rw [isNaN_eq_false_of_beq first]; exact Bool.false_ne_true)
  · exact BEq.trans first same

theorem Same.comp {x y z : Number} (first : x.Same y) (second : y.Same z)
    (between : SameIntegers x z) : x.Same z := by
  match x, y, z with
  | .int m, _, .int n => exact between ▸ Same.refl (.int m)
  | .int m, .int n, .float z => exact eq_of_beq first ▸ second
  | .float x, .int m, .int n => exact eq_of_beq second ▸ first
  | .int m, .float y, .float z => exact beq_of_same_float first second
  | .float x, .float y, .int n => exact Same.symm (beq_of_same_float second.symm first.symm)
  | .float x, .int n, .float z => exact same_float_iff.mpr (.inr (BEq.trans first second))
  | .float x, .float y, .float z =>
      rcases same_float_iff.mp first with ⟨isNaN, isNaNToo⟩ | same
      · rcases same_float_iff.mp second with ⟨-, isNaNLast⟩ | sameToo
        · exact same_float_iff.mpr (.inl ⟨isNaN, isNaNLast⟩)
        · have notNaN := isNaN_eq_false_of_beq (BEq.symm sameToo)
          exact absurd isNaNToo (by rw [notNaN]; exact Bool.false_ne_true)
      · exact same_float_iff.mpr (.inr (beq_of_same_float same second))

theorem Same.integers {x z : Number} (same : x.Same z) : SameIntegers x z := by
  match x, z with
  | .int _, .int _ => exact eq_of_beq same
  | .int _, .float _ | .float _, .int _ | .float _, .float _ => trivial

theorem value?_bound : value? 9.2e18 = some 9200000000000000000 := by
  have bound : Binary.ofFloat 9.2e18 = .finite false 8984375000000000 10 := by decide +kernel
  rw [value?, bound, Binary.value?]
  norm_num

theorem abs_lt_bound_iff {x : Float} {n : Int} (known : value? x = some (n : ℚ)) :
    x.abs < 9.2e18 ↔ n.natAbs < 9200000000000000000 := by
  have size : value? x.abs = some ((n.natAbs : Nat) : ℚ) := by
    rw [value?_abs, known, Option.map_some, Nat.cast_natAbs, Int.cast_abs]
  rw [lt_iff_of_values size value?_bound]
  exact_mod_cast Iff.rfl

theorem digest_float_eq_whole_iff {x : Double} {n : Int} :
    Key.numberDigest (.float x) = .whole n ↔
      value? x.toFloat = some (n : ℚ) ∧ n.natAbs < 9200000000000000000 := by
  unfold Key.numberDigest
  simp only [Bool.and_eq_true, decide_eq_true_eq]
  constructor
  · intro filed
    split at filed
    · next whole =>
        obtain ⟨m, found⟩ := exists_integer_of_isIntegral whole.1 .towardZero
        rw [found, Option.getD_some] at filed
        cases filed
        have known := value?_eq_intCast_iff.mpr ⟨whole.1, found⟩
        exact ⟨known, (abs_lt_bound_iff known).mp whole.2⟩
    · cases filed
  · rintro ⟨known, small⟩
    obtain ⟨integral, found⟩ := value?_eq_intCast_iff.mp known
    rw [if_pos ⟨integral, (abs_lt_bound_iff known).mpr small⟩, found, Option.getD_some]

theorem digest_of_isNaN {x : Double} (isNaN : x.isNaN = true) :
    Key.numberDigest (.float x) = .bits x.bits := by
  have fractional : isIntegral .nan = false := by decide +kernel
  rw [Double.isNaN, Float.isNaN_eq_decide_eq_nan, decide_eq_true_iff] at isNaN
  unfold Key.numberDigest
  simp only [isNaN, fractional, Bool.false_and, Bool.false_eq_true, if_false]

theorem digest_of_beq {x y : Double} (same : (x.toFloat == y.toFloat) = true) :
    Key.numberDigest (.float x) = Key.numberDigest (.float y) := by
  have zero : value? 0 = some 0 := by
    have bits : Binary.ofFloat 0 = .finite false 0 (-1074) := by decide +kernel
    rw [value?, bits, Binary.value?]
    norm_num
  have negativeZero : value? (-0) = some 0 := by
    have bits : Binary.ofFloat (-0) = .finite true 0 (-1074) := by decide +kernel
    rw [value?, bits, Binary.value?]
    norm_num
  have ofZero {z : Double} (isZero : value? z.toFloat = some 0) :
      Key.numberDigest (.float z) = .whole 0 :=
    digest_float_eq_whole_iff.mpr ⟨by rw [isZero, Int.cast_zero], by decide⟩
  obtain ⟨number, numberToo, alike | ⟨left, right⟩ | ⟨left, right⟩⟩ :=
    Float.beq_iff_ne_nan_and_eq.mp same
  · have bits : x.bits = y.bits := by
      rw [← Double.toBits_toFloat (isNaN_eq_false_of_beq same),
        ← Double.toBits_toFloat (isNaN_eq_false_of_beq (BEq.symm same)), alike]
    cases x
    cases y
    cases bits
    rfl
  · rw [ofZero (left ▸ zero), ofZero (right ▸ negativeZero)]
  · rw [ofZero (left ▸ negativeZero), ofZero (right ▸ zero)]

theorem filedTogether_iff {x y : Number} (same : x.Same y) :
    x.FiledTogether y ↔ x.FiledAlike y := by
  match x, y with
  | .int m, .int n => exact ⟨fun _ => trivial, fun _ => eq_of_beq same ▸ rfl⟩
  | .int n, .float x => exact eq_comm.trans digest_float_eq_whole_iff
  | .float x, .int n => exact digest_float_eq_whole_iff
  | .float x, .float y =>
      rcases same_float_iff.mp same with ⟨isNaN, isNaNToo⟩ | alike
      · rw [FiledTogether, digest_of_isNaN isNaN, digest_of_isNaN isNaNToo, Digest.bits.injEq,
          FiledAlike]
        simp [isNaN]
      · have number := isNaN_eq_false_of_beq (BEq.symm alike)
        simp [FiledTogether, FiledAlike, digest_of_beq alike, number]

end Number

namespace Key

theorem equal_symm {a b : Key} (same : a.equal b = true) : b.equal a = true :=
  equal_iff_matches.mpr ((equal_iff_matches.mp same).symm fun _ _ => Number.Same.symm)

theorem equal_comm (a b : Key) : a.equal b = b.equal a :=
  Bool.eq_iff_iff.mpr ⟨equal_symm, equal_symm⟩

/-- A look-up finds a key that is equal to one in the dict if both are filed together. -/
theorem contains_of_finds {α : Type} {dict : Dict α} {a b : Key} {value : α}
    (present : (a, value) ∈ dict.entries) (same : a.equal b = true) (filed : a.digest = b.digest) :
    dict.contains b = true :=
  Dict.contains_iff.mpr ⟨_, present, Dict.selects_eq_true_iff.mpr ⟨same, .inr filed⟩⟩

/-- Equality of keys is transitive but for integers at the same place that differ. -/
theorem equal_iff_of_equal_between {a b c : Key} (first : a.equal b = true)
    (second : b.equal c = true) : a.equal c = true ↔ a.Matches Number.SameIntegers c := by
  let between (x z : Number) : Prop := ∃ y : Number, x.Same y ∧ y.Same z
  have reached : a.Matches between c :=
    (equal_iff_matches.mp first).comp (fun _ y _ same sameToo => ⟨y, same, sameToo⟩)
      (equal_iff_matches.mp second)
  rw [equal_iff_matches]
  refine reached.congr ?_
  rintro x z ⟨y, same, sameToo⟩
  exact ⟨Number.Same.integers, same.comp sameToo⟩

theorem digest_eq_iff_of_equal {a b : Key} (same : a.equal b = true) :
    a.digest = b.digest ↔ a.Matches Number.FiledAlike b :=
  digest_eq_iff_matches.trans
    ((equal_iff_matches.mp same).congr fun _ _ => Number.filedTogether_iff)

/-- Equality of keys is reflexive and symmetric; keys that are equal to the same key are equal if
they have the same integers at the same places.  Equal keys are filed together, so that each is
found in a dict that has the other, if where one of them has a double and the other an integer, that
integer is the value of the double and less than 9.2e18 in size, and if NaNs at the same place have
the same bits. -/
theorem equal_coherent (a b c : Key) :
    a.equal a = true ∧ a.equal b = b.equal a ∧
      (a.equal b = true → b.equal c = true →
        (a.equal c = true ↔ a.Matches Number.SameIntegers c)) ∧
      (a.equal b = true → (a.digest = b.digest ↔ a.Matches Number.FiledAlike b)) ∧
      (a.equal b = true → a.Matches Number.FiledAlike b →
        ∀ {α : Type} (dict : Dict α) (value : α), (a, value) ∈ dict.entries →
          dict.contains b = true) :=
  ⟨equal_iff_matches.mpr (.refl Number.Same.refl a), equal_comm a b, equal_iff_of_equal_between,
    digest_eq_iff_of_equal, fun same alike _ _ _ present =>
      contains_of_finds present same ((digest_eq_iff_of_equal same).mpr alike)⟩

/-- One as an integer, a double and a truth value is one key, also inside a tuple. -/
theorem equal_coherent_one :
    (tuple [.int 1, .none]).equal (.tuple [.float ⟨0x3FF0000000000000⟩, .none]) = true ∧
      (tuple [.float ⟨0x3FF0000000000000⟩, .none]).equal (.tuple [.bool true, .none]) = true ∧
      (tuple [.int 1, .none]).equal (.tuple [.bool true, .none]) = true ∧
      (tuple [.int 1, .none]).digest = (tuple [.float ⟨0x3FF0000000000000⟩, .none]).digest ∧
      Dict.contains ⟨[(.none, "a"), (.tuple [.int 1, .none], "b")], by decide⟩
        (.tuple [.float ⟨0x3FF0000000000000⟩, .none]) = true := by
  have isOne : Number.value? (Number.Double.toFloat ⟨0x3FF0000000000000⟩) = some (1 : Int) := by
    have bits : Number.Binary.ofFloat (Number.Double.toFloat ⟨0x3FF0000000000000⟩) =
        .finite false 4503599627370496 (-52) := by decide +kernel
    rw [Number.value?, bits, Number.Binary.value?]
    norm_num
  have first : (tuple [.int 1, .none]).equal (.tuple [.float ⟨0x3FF0000000000000⟩, .none]) = true :=
    by decide +kernel
  have second : (tuple [.float ⟨0x3FF0000000000000⟩, .none]).equal (.tuple [.bool true, .none]) =
      true := by decide +kernel
  have alike : (tuple [.int 1, .none]).Matches Number.FiledAlike
      (.tuple [.float ⟨0x3FF0000000000000⟩, .none]) :=
    .tuple (.cons (.number rfl rfl ⟨isOne, by decide⟩) (.cons .none .nil))
  have integers : (tuple [.int 1, .none]).Matches Number.SameIntegers
      (.tuple [.bool true, .none]) :=
    .tuple (.cons (.number rfl rfl rfl) (.cons .none .nil))
  obtain ⟨-, -, transitive, filed, found⟩ := equal_coherent (.tuple [.int 1, .none])
    (.tuple [.float ⟨0x3FF0000000000000⟩, .none]) (.tuple [.bool true, .none])
  exact ⟨first, second, (transitive first second).mpr integers, (filed first).mpr alike,
    found first alike _ "b" (by simp)⟩

end Key

end Stepwise
