import Calculator.Number.Arithmetic

/-! # Elementary functions

Most transcendental functions come from the machine's mathematical library, reached through the interchange
encoding; a signaling NaN never reaches it. The inverse hyperbolic tangent is computed from its closed form,
each step rounded.
-/

namespace Calculator.Binary64

/-- The machine number with the same encoding. -/
def toFloat (x : Binary64) : Float := Float.ofBits x.toBits

/-- The value of a machine number. -/
def ofFloat (x : Float) : Binary64 := ofBits x.toBits

/-- A library function of one argument. A signaling NaN has no value under it. -/
def lift (f : Float → Float) (x : Binary64) : Binary64 :=
  if x.isSignaling then quietNan else ofFloat (f x.toFloat)

/-- A library function of two arguments. A signaling NaN has no value under it, whatever the other argument. -/
def lift₂ (f : Float → Float → Float) (x y : Binary64) : Binary64 :=
  if x.isSignaling || y.isSignaling then quietNan else ofFloat (f x.toFloat y.toFloat)

/-- The power of a base. The exponent 0 and the base 1 give 1 also with a quiet NaN, but not with a signaling
    one. -/
def pow : Binary64 → Binary64 → Binary64 := lift₂ Float.pow

/-- The natural logarithm. -/
def ln : Binary64 → Binary64 := lift Float.log

/-- The logarithm of `x` in a base, as a quotient of natural logarithms. -/
def logBase (base x : Binary64) : Binary64 := (ln x).div (ln base)

/-- A natural number. -/
def ofNat (n : Nat) : Binary64 := ofRatio false (n * unitsPerOne) 1

/-- The natural logarithm of `1 + x`. What rounding took from the sum is put back to first order, so small
    arguments keep their digits. -/
def lnOnePlus (x : Binary64) : Binary64 :=
  let one := ofNat 1
  let sum := one.add x
  if sum = one then x
  else
    match x.sub (sum.sub one) with
    | .finite negative lost =>
      if lost.units = 0 then ln sum else (ln sum).add (div (.finite negative lost) sum)
    | _ => ln sum

/-- The inverse hyperbolic tangent: half the logarithm of `1 + 2 * x / (1 - x)`. -/
def artanh (x : Binary64) : Binary64 :=
  (lnOnePlus (((ofNat 2).mul x).div ((ofNat 1).sub x))).div (ofNat 2)

end Calculator.Binary64
