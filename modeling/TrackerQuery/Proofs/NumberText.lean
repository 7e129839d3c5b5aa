import TrackerQuery.Decimal.Shortest
import TrackerQuery.Proofs.DateText
import TrackerQuery.Proofs.Lexeme

/-!
# Printed numbers

An integer prints as a number that scanning takes whole, and so does a double, unless it
is infinite or no number at all: the notation is positional, so there are digits before
the point and no exponent.
-/

namespace TrackerQuery

open Decimal (isDigit)
open Scan (IsNumber IsUnsigned)

namespace Scan

theorem isUnsigned_of_digits {cs : List Char} (hne : cs ≠ [])
    (hdigits : ∀ c ∈ cs, isDigit c = true) : IsUnsigned cs := by
  cases cs with
  | nil => exact absurd rfl hne
  | cons d ds => simpa using IsUnsigned.mk hdigits .none .none

theorem isUnsigned_of_point {whole fraction : List Char} (hwhole : whole ≠ [])
    (hfraction : fraction ≠ []) (hdigits : ∀ c ∈ whole ++ fraction, isDigit c = true) :
    IsUnsigned (whole ++ '.' :: fraction) := by
  obtain ⟨hbefore, hafter⟩ := List.forall_mem_append.mp hdigits
  cases whole with
  | nil => exact absurd rfl hwhole
  | cons d ds =>
      cases fraction with
      | nil => exact absurd rfl hfraction
      | cons e es => simpa using IsUnsigned.mk hbefore (.digits hafter) .none

end Scan

namespace Decimal

theorem toList_toString (n : Nat) : (toString n).toList = (padded 0 n).toList := by
  simp [toList_padded, Nat.repr_eq_ofList_toDigits]

theorem isUnsigned_toString (n : Nat) : IsUnsigned (toString n).toList := by
  rw [toList_toString]
  exact Scan.isUnsigned_of_digits (padded_ne_nil 0 n) isDigit_of_mem_padded

/-- The digits before the point are never missing, and a point is not printed without
digits after it. -/
theorem isUnsigned_positional (n : Nat) (power : Int) :
    IsUnsigned (positional n power).toList := by
  unfold positional
  dsimp only
  split
  · -- zeros follow the digits
    rw [String.toList_ofList, toList_toString]
    apply Scan.isUnsigned_of_digits
    · exact List.append_ne_nil_of_left_ne_nil (padded_ne_nil 0 n) _
    · intro c hc
      obtain hc | hc := List.mem_append.mp hc
      · exact isDigit_of_mem_padded c hc
      · rw [(List.mem_replicate.mp hc).2]
        decide
  · -- the digits are cut in two, filled up so that both parts get some
    have hfilled : List.replicate ((-power).toNat + 1 - (toString n).toList.length) '0' ++
        (toString n).toList = (padded ((-power).toNat + 1) n).toList := by
      simp [toList_padded, Nat.repr_eq_ofList_toDigits]
    rw [hfilled]
    generalize hcs : (padded ((-power).toNat + 1) n).toList = cs
    have hdigits : ∀ c ∈ cs, isDigit c = true := hcs ▸ isDigit_of_mem_padded
    have hlength : (-power).toNat < cs.length := by
      rw [← hcs, toList_padded, List.length_append, List.length_replicate]
      omega
    have hwhole : cs.take (cs.length - (-power).toNat) ≠ [] := by
      apply List.ne_nil_of_length_pos
      rw [List.length_take]
      omega
    split
    · rw [String.toList_ofList]
      exact Scan.isUnsigned_of_digits hwhole fun c hc => hdigits c (List.mem_of_mem_take hc)
    · rename_i hfraction
      rw [String.toList_ofList]
      apply Scan.isUnsigned_of_point hwhole
      · simpa using hfraction
      · intro c hc
        obtain hc | hc := List.mem_append.mp hc
        · exact hdigits c (List.mem_of_mem_take hc)
        · have hc := List.mem_reverse.mp hc
          have hc := List.mem_reverse.mp ((List.dropWhile_sublist _).mem hc)
          exact hdigits c (List.mem_of_mem_drop hc)

open Float.Model in
/-- A finite double has an exponent field other than the one of infinity. -/
theorem magnitude_of_isFinite {x : Float} (hx : x.isFinite = true) :
    x.isNaN = false ∧ x.toBits.toNat % signBit ≠ infinity := by
  change (UnpackedFloat.unpack Format.binary64 x.toBits.toBitVec).isFinite = true at hx
  have hfield : @UnpackedFloat.unpackExponent Format.binary64 x.toBits.toBitVec ≠ -1#_ := by
    intro hones
    have hunpack : UnpackedFloat.unpack Format.binary64 x.toBits.toBitVec =
        if @UnpackedFloat.unpackMantissa Format.binary64 x.toBits.toBitVec = 0#_ then
          .infinity (.ofBitVec (@UnpackedFloat.unpackSign Format.binary64 x.toBits.toBitVec))
        else .notANumber :=
      if_pos hones
    rw [hunpack] at hx
    split at hx
    · cases hx
    · cases hx
  constructor
  · change (UnpackedFloat.unpack Format.binary64 x.toBits.toBitVec).isNaN = false
    generalize UnpackedFloat.unpack Format.binary64 x.toBits.toBitVec = unpacked at hx
    cases unpacked with
    | notANumber => cases hx
    | _ => rfl
  · intro hmagnitude
    apply hfield
    apply BitVec.eq_of_toNat_eq
    simp only [UnpackedFloat.unpackExponent, BitVec.toNat_cast, BitVec.extractLsb_toNat]
    simp only [signBit, infinity] at hmagnitude
    show x.toBits.toNat >>> 52 % 2048 = 2047
    rw [Nat.shiftRight_eq_div_pow]
    omega

theorem isNumber_renderFloat {x : Float} (hx : x.isFinite = true) :
    IsNumber (renderFloat x).toList := by
  obtain ⟨hnan, hmagnitude⟩ := magnitude_of_isFinite hx
  unfold renderFloat
  rw [hnan, if_neg (by decide)]
  dsimp only
  rw [if_neg hmagnitude]
  have hunsigned : IsUnsigned (if x.toBits.toNat % signBit = 0 then "0" else
      positional (shortest (x.toBits.toNat % signBit)).1
        (shortest (x.toBits.toNat % signBit)).2).toList := by
    split
    · exact isUnsigned_toString 0
    · exact isUnsigned_positional _ _
  split
  · rw [String.toList_append]
    exact .signed (.inr rfl) hunsigned
  · exact .unsigned hunsigned

theorem isNumber_toString (n : Int) : IsNumber (toString n).toList := by
  cases n with
  | ofNat n => exact .unsigned (isUnsigned_toString n)
  | negSucc n =>
      have htext : (toString (Int.negSucc n)).toList = '-' :: (toString (n + 1)).toList := by
        simp [toString, Int.repr]
      rw [htext]
      exact .signed (.inr rfl) (isUnsigned_toString (n + 1))

end Decimal

end TrackerQuery
