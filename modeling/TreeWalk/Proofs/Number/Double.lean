/-
The order of floating-point numbers, and the numbers that integers become.

Two numbers are less, equal or greater unless one of them is a NaN, and every comparison
operator reads its answer off that.  So the operators never contradict each other: where
neither number is a NaN exactly one of `<`, `==` and `>` holds, and otherwise none of the
comparisons does.  An integer never becomes a NaN.
-/
import TreeWalk.Number.Double

namespace TreeWalk
namespace Double

open Float.Model

variable {x y : Double} {o : Ordering}

/-- How two numbers compare; `none` if one is a NaN. -/
def compare? (x y : Double) : Option Ordering := x.toFloat.toModel.compare y.toFloat.toModel

theorem sign_swap (s t : UnpackedFloat.Sign) : compare t s = (compare s t).swap := by
  cases s <;> cases t <;> rfl

theorem magnitude_swap (m n : Nat) (e d : Int) :
    (compare d e).then (compare n m) = ((compare e d).then (compare m n)).swap := by
  rw [Ordering.swap_then, Int.compare_swap, Nat.compare_swap]

theorem unpacked_swap (a b : UnpackedFloat) : b.compare a = (a.compare b).map .swap := by
  cases a with
  | notANumber => cases b <;> rfl
  | infinity s =>
    cases b with
    | infinity t => exact congrArg some (sign_swap s t)
    | notANumber => rfl
    | zero _ => cases s <;> rfl
    | finite t _ _ _ => cases s <;> cases t <;> rfl
  | zero s =>
    cases b with
    | infinity t => cases t <;> rfl
    | finite t _ _ _ => cases t <;> rfl
    | _ => rfl
  | finite s m e _ =>
    cases b with
    | infinity t => cases s <;> cases t <;> rfl
    | notANumber => rfl
    | zero _ => cases s <;> rfl
    | finite t n d _ =>
      cases s with
      | negative =>
        cases t with
        | negative => exact congrArg (fun o => some o.swap) (magnitude_swap m n e d)
        | positive => rfl
      | positive =>
        cases t with
        | negative => rfl
        | positive => exact congrArg some (magnitude_swap m n e d)

theorem compare?_swap (x y : Double) : y.compare? x = (x.compare? y).map .swap := unpacked_swap _ _

theorem unpacked_nan_left (b : UnpackedFloat) : UnpackedFloat.notANumber.compare b = none := by
  cases b <;> rfl

theorem unpacked_nan_right (a : UnpackedFloat) : a.compare .notANumber = none := by
  cases a <;> rfl

/-- All numbers but the NaNs are in an order. -/
theorem exists_unpacked {a b : UnpackedFloat} (ha : a.isNaN = false) (hb : b.isNaN = false) :
    ∃ o, a.compare b = some o := by
  cases a with
  | notANumber => cases ha
  | infinity s =>
    cases b with
    | notANumber => cases hb
    | infinity t => exact ⟨_, rfl⟩
    | _ => cases s <;> exact ⟨_, rfl⟩
  | zero s =>
    cases b with
    | notANumber => cases hb
    | zero _ => exact ⟨_, rfl⟩
    | infinity t => cases t <;> exact ⟨_, rfl⟩
    | finite t _ _ _ => cases t <;> exact ⟨_, rfl⟩
  | finite s _ _ _ =>
    cases b with
    | notANumber => cases hb
    | zero _ => cases s <;> exact ⟨_, rfl⟩
    | infinity t => cases s <;> cases t <;> exact ⟨_, rfl⟩
    | finite t _ _ _ => cases s <;> cases t <;> exact ⟨_, rfl⟩

theorem unpacked_eq_none_iff (a b : UnpackedFloat) :
    a.compare b = none ↔ a.isNaN = true ∨ b.isNaN = true := by
  constructor
  · intro hnone
    cases ha : a.isNaN with
    | true => exact .inl rfl
    | false =>
      cases hb : b.isNaN with
      | true => exact .inr rfl
      | false =>
        obtain ⟨o, ho⟩ := exists_unpacked ha hb
        cases ho.symm.trans hnone
  · rintro (ha | hb)
    · cases a with
      | notANumber => exact unpacked_nan_left b
      | _ => cases ha
    · cases b with
      | notANumber => exact unpacked_nan_right a
      | _ => cases hb

theorem compare?_eq_none_iff : x.compare? y = none ↔ x.isNaN = true ∨ y.isNaN = true :=
  unpacked_eq_none_iff _ _

theorem lt_iff : x < y ↔ x.compare? y = some .lt := decide_eq_true_iff.trans beq_iff_eq

theorem beq_iff : (x == y) = true ↔ x.compare? y = some .eq := by
  show (x.compare? y == some .eq) = true ↔ _
  exact beq_iff_eq

theorem beq_comm (x y : Double) : (x == y) = (y == x) := by
  rw [Bool.eq_iff_iff, beq_iff, beq_iff, compare?_swap x y]
  cases x.compare? y with
  | none => simp
  | some o => cases o <;> simp

theorem le_iff : x ≤ y ↔ ∃ o, x.compare? y = some o ∧ o.isLE = true := by
  have hany := Option.any_eq_true (fun o : Ordering => o.isLE) (x.compare? y)
  exact decide_eq_true_iff.trans hany

/-- Three comparisons in turn find out how two numbers compare. -/
theorem compare?_eq_ite (x y : Double) : x.compare? y =
    if x < y then some .lt else if x == y then some .eq else if y < x then some .gt else none := by
  simp only [lt_iff, beq_iff, compare?_swap x y]
  cases x.compare? y with
  | none => simp
  | some o => cases o <;> simp

/-! ## Integers -/

/-- A NaN is told by its exponent and its mantissa. -/
theorem isNaN_unpack_iff {spec : Format} (b : BitVec spec.numBits) :
    (UnpackedFloat.unpack spec b).isNaN = true ↔
      UnpackedFloat.unpackExponent b = -1#_ ∧ UnpackedFloat.unpackMantissa b ≠ 0#_ := by
  unfold UnpackedFloat.unpack
  extract_lets mantissa exponent
  by_cases hexponent : exponent = -1#_
  · rw [if_pos hexponent]
    by_cases hmantissa : mantissa = 0#_
    · rw [if_pos hmantissa]
      exact ⟨fun h => (nomatch h), fun h => absurd hmantissa h.2⟩
    · rw [if_neg hmantissa]
      exact ⟨fun _ => ⟨hexponent, hmantissa⟩, fun _ => rfl⟩
  · rw [if_neg hexponent]
    refine ⟨fun h => ?_, fun h => absurd h.1 hexponent⟩
    by_cases hzero : exponent = 0#_
    · rw [if_pos hzero] at h
      by_cases hmantissa : mantissa = 0#_
      · rw [dif_pos hmantissa] at h
        cases h
      · rw [dif_neg hmantissa] at h
        cases h
    · rw [if_neg hzero] at h
      cases h

/-- What is no NaN is none when it has been packed. -/
theorem isNaN_unpack_pack (spec : Format) {u : UnpackedFloat} (h : u.isNaN = false) :
    (UnpackedFloat.unpack spec (u.pack spec)).isNaN = false := by
  have components {sign : UnpackedFloat.Sign} {exponent : BitVec spec.exponentBits}
      {mantissa : BitVec spec.mantissaBitsWithoutImplicit}
      (h : exponent = -1#_ → mantissa = 0#_) :
      (UnpackedFloat.unpack spec
        (UnpackedFloat.packComponents spec sign exponent mantissa)).isNaN = false := by
    rw [Bool.eq_false_iff, Ne, isNaN_unpack_iff, UnpackedFloat.unpackExponent_packComponents,
      UnpackedFloat.unpackMantissa_packComponents]
    exact fun ⟨hexponent, hmantissa⟩ => hmantissa (h hexponent)
  have exponent_ne {n : Nat} (hn : n + 1 < 2 ^ spec.exponentBits) :
      BitVec.ofNat spec.exponentBits n ≠ -1#_ := by
    intro heq
    have htoNat := congrArg BitVec.toNat heq
    rw [BitVec.toNat_ofNat, Nat.mod_eq_of_lt (by omega), BitVec.neg_one_eq_allOnes,
      BitVec.toNat_allOnes] at htoNat
    omega
  have one_lt : 1 < 2 ^ spec.exponentBits := Nat.one_lt_two_pow (Nat.pos_iff_ne_zero.mp spec.he)
  cases u with
  | notANumber => cases h
  | infinity s => exact components fun _ => rfl
  | zero s => exact components fun _ => rfl
  | finite s m e hm =>
    unfold UnpackedFloat.pack
    dsimp only
    split
    · exact components fun _ => rfl
    · next hfits =>
      split
      · exact components fun heq => absurd heq (exponent_ne (by omega))
      · exact components fun heq => absurd heq (exponent_ne one_lt)

theorem isNaN_pack {u : UnpackedFloat} (h : u.isNaN = false) :
    (Float.ofModel (.pack u)).isNaN = false := isNaN_unpack_pack .binary64 h

theorem isNaN_neg {x : Float} (h : x.isNaN = false) : (-x).isNaN = false := by
  refine isNaN_pack (u := x.toModel.unpack.neg) ?_
  revert h
  show x.toModel.unpack.isNaN = false → _
  cases x.toModel.unpack <;> exact id

theorem isNaN_ofFloat {x : Float} (h : x.isNaN = false) : (ofFloat x).isNaN = false := by
  unfold ofFloat
  rw [h, if_neg Bool.false_ne_true]
  exact isNaN_pack (u := x.toModel.unpack) h

theorem isNaN_toFloat (n : UInt64) : n.toFloat.isNaN = false := by
  refine isNaN_pack (u := .ofUInt64 .binary64 n) ?_
  have pick {p : Prop} [Decidable p] {u : p → UnpackedFloat} {v : ¬p → UnpackedFloat}
      (hu : ∀ h, (u h).isNaN = false) (hv : ∀ h, (v h).isNaN = false) :
      (dite p u v).isNaN = false := by
    split
    · exact hu _
    · exact hv _
  have round (sign : UnpackedFloat.Sign) (m : Nat) (e : Int) :
      (UnpackedFloat.round .binary64 sign m e).isNaN = false :=
    pick (fun _ => rfl) fun _ => rfl
  show (UnpackedFloat.normalize .binary64 (n.toNat : Int) 0 .positive).isNaN = false
  unfold UnpackedFloat.normalize
  split
  · exact round ..
  · rfl
  · exact round ..

/-- An integer is no NaN. -/
theorem isNaN_ofInt (n : Int64) : (ofInt n).isNaN = false := by
  unfold ofInt
  refine isNaN_ofFloat ?_
  split
  · exact isNaN_neg (isNaN_toFloat _)
  · exact isNaN_toFloat _

end Double
end TreeWalk
