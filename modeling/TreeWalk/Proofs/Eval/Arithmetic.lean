/-
Integer arithmetic is exact or refused.

An operation on integers answers the exact result if 64 bits hold it, and fails with an
overflow that names the operation if not; nothing wraps.  Two refusals come earlier
than that.  A remainder is refused along with its quotient, so there is none of the
least integer by -1.  And no base is raised to an exponent of more than 32 bits, though
the powers of 0, 1 and -1 would be small.
-/
import TreeWalk.Proofs.Eval.Place
import TreeWalk.Proofs.Number.Word
import TreeWalk.Proofs.Store.Comparison

namespace TreeWalk

open Eval

variable {n : Int} {operation : String} {pos : Position} {f : Fiber} {σ : Store} {a b : Int64}
  {r? : Option Int64}

/-- A computation fails with an overflow of the named operation, and changes nothing. -/
def Overflows (operation : String) (pos : Position) (f : Fiber) (σ : Store) (x : Eval Value) :
    Prop := x f σ = .done (.error (.error ⟨.integerOverflow operation, pos⟩)) f σ

/-- A computation comes to the integer `n` if 64 bits hold it, and overflows if not. -/
def Settles (n : Int) (operation : String) (pos : Position) (f : Fiber) (σ : Store)
    (x : Eval Value) : Prop :=
  (∀ r : Int64, r.toInt = n → x f σ = .done (.ok (.ofInt r)) f σ) ∧
    ((∀ r : Int64, r.toInt ≠ n) → Overflows operation pos f σ x)

theorem settles_exact (h : Word.Exact n r?) :
    Settles n operation pos f σ (lift (Operator.exact r? operation pos)) := by
  refine ⟨fun r hr => ?_, fun hnone => ?_⟩
  · rw [h.eq_some hr]
    rfl
  · rw [h.eq_none hnone]
    rfl

namespace Operator

theorem settles_add :
    Settles (a.toInt + b.toInt) "addition" pos f σ
      (lift (binary .add (.ofInt a) (.ofInt b) pos)) :=
  settles_exact (Word.exact_ofInt? _)

theorem settles_sub :
    Settles (a.toInt - b.toInt) "subtraction" pos f σ
      (lift (binary .sub (.ofInt a) (.ofInt b) pos)) :=
  settles_exact (Word.exact_ofInt? _)

theorem settles_mul :
    Settles (a.toInt * b.toInt) "multiplication" pos f σ
      (lift (binary .mul (.ofInt a) (.ofInt b) pos)) :=
  settles_exact (Word.exact_ofInt? _)

theorem mod_zero : lift (binary .mod (.ofInt a) (.ofInt 0) pos) f σ =
    .done (.error (.error ⟨.divideByZero, pos⟩)) f σ := rfl

theorem binary_mod (hb : b ≠ 0) : binary .mod (.ofInt a) (.ofInt b) pos =
    exact (Word.rem? a b) "remainder" pos := by
  rw [binary_ints (by decide), onInts, if_neg hb]

theorem settles_mod (hb : b ≠ 0) (h : ¬ (a.toInt = Word.least ∧ b.toInt = -1)) :
    Settles (a.toInt.tmod b.toInt) "remainder" pos f σ
      (lift (binary .mod (.ofInt a) (.ofInt b) pos)) := by
  rw [binary_mod hb]
  exact settles_exact (Word.exact_rem? hb h)

theorem mod_least (ha : a.toInt = Word.least) (hb : b.toInt = -1) :
    Overflows "remainder" pos f σ (lift (binary .mod (.ofInt a) (.ofInt b) pos)) := by
  have hb0 : b ≠ 0 := fun hz => absurd (hz ▸ hb) (by decide)
  rw [binary_mod hb0, Word.rem?_least ha hb]
  rfl

theorem not_lt_zero (h : 0 ≤ b.toInt) : ¬ b < 0 := by
  rw [Int64.lt_iff_toInt_lt]
  exact Int.not_lt.mpr h

theorem settles_pow (hb : 0 ≤ b.toInt) (hlt : b.toInt < 2 ^ 32) :
    Settles (a.toInt ^ b.toInt.toNat) "exponentiation" pos f σ
      (lift (binary .pow (.ofInt a) (.ofInt b) pos)) := by
  rw [binary_ints (by decide), onInts, if_neg (not_lt_zero hb),
    if_pos (show b.toInt < Int.pow 2 32 from hlt)]
  exact settles_exact (Word.exact_pow? a _)

theorem pow_large (hb : 2 ^ 32 ≤ b.toInt) :
    Overflows "exponentiation" pos f σ (lift (binary .pow (.ofInt a) (.ofInt b) pos)) := by
  rw [binary_ints (by decide), onInts, if_neg (not_lt_zero (by omega)),
    if_neg (show ¬ b.toInt < Int.pow 2 32 from Int.not_lt.mpr hb)]
  rfl

theorem settles_neg :
    Settles (-a.toInt) "negation" pos f σ (lift (unary .neg (.ofInt a) pos)) :=
  settles_exact (Word.exact_ofInt? _)

end Operator

theorem settles_abs (ev : Evaluator) :
    Settles a.toInt.natAbs "abs" f.pos f σ (Method.call ev (.ofInt a) "abs" []) := by
  have hcall : Method.call ev (.ofInt a) "abs" [] f σ =
      lift (Operator.exact (Word.abs? a) "abs" f.pos) f σ := by
    show lift (IntMethod.compute .abs a f.pos) f σ = _
    unfold IntMethod.compute
    cases Word.abs? a <;> rfl
  unfold Settles Overflows
  rw [hcall]
  exact settles_exact (Word.exact_ofInt? _)

namespace Assign

/-- How far `++` and `--` go. -/
def delta : PostfixOp → Int
  | .increment => 1
  | .decrement => -1

theorem settles_stepped (op : PostfixOp) :
    Settles (a.toInt + delta op) op.symbol pos f σ (lift (stepped op (.ofInt a) pos)) := by
  cases op with
  | increment => exact settles_exact (Word.exact_ofInt? _)
  | decrement => exact settles_exact (Word.exact_ofInt? _)

/-- `++` and `--` at a place that has been found. -/
def stepAt (op : PostfixOp) (place : Place) (pos : Position) : Eval Value := do
  let old ← readPlace place pos
  amend place (stepped op old pos) pos fun _ => old

theorem step_eq_stepAt (ev : Evaluator) (op : PostfixOp) (target : Expr) :
    step ev op target pos = resolve ev target pos >>= fun place => stepAt op place pos := by
  simp only [step_eq, found, stepAt, bind_assoc, pure_bind]

variable {op : PostfixOp} {place : Place}

theorem stepAt_apply (hread : readPlace place pos f σ = .done (.ok (.ofInt a)) f σ) :
    stepAt op place pos f σ = (lift (stepped op (.ofInt a) pos) f σ).andThen (follow fun v =>
      writePlace place v false pos >>= fun _ => pure (.ofInt a)) := by
  unfold stepAt
  rw [bind_apply, hread]
  exact bind_apply _ _ f σ

/-- A step at an integer leaves the integer one further there and answers the one before,
unless the place cannot be written. -/
theorem stepAt_exact (hlive : place.Live σ f.scope)
    (hread : readPlace place pos f σ = .done (.ok (.ofInt a)) f σ) {r : Int64}
    (hr : r.toInt = a.toInt + delta op) :
    (∃ τ, stepAt op place pos f σ = .done (.ok (.ofInt a)) f τ ∧
      ∀ pos', readPlace place pos' f τ = .done (.ok (.ofInt r)) f τ) ∨
    ∃ e, writePlace place (.ofInt r) false pos f σ = .done (.error (.error e)) f σ ∧
      stepAt op place pos f σ = .done (.error (.error e)) f σ := by
  have hstep : stepAt op place pos f σ =
      (writePlace place (.ofInt r) false pos f σ).andThen (follow fun _ => pure (.ofInt a)) := by
    rw [stepAt_apply hread, (settles_stepped op).1 r hr]
    exact bind_apply _ _ f σ
  rcases writePlace_cases hlive (.ofInt r) false with ⟨τ, ℓ, hwrite, _, _, hget⟩ | ⟨e, hwrite⟩
  · refine .inl ⟨τ, ?_, hget⟩
    rw [hstep, hwrite]
    rfl
  · refine .inr ⟨e, hwrite, ?_⟩
    rw [hstep, hwrite]
    rfl

theorem stepAt_overflow (hread : readPlace place pos f σ = .done (.ok (.ofInt a)) f σ)
    (hnone : ∀ r : Int64, r.toInt ≠ a.toInt + delta op) :
    Overflows op.symbol pos f σ (stepAt op place pos) := by
  have hover : Overflows op.symbol pos f σ (lift (stepped op (.ofInt a) pos)) :=
    (settles_stepped op).2 hnone
  unfold Overflows at hover ⊢
  rw [stepAt_apply hread, hover]
  rfl

end Assign

/-- Sums, differences, products, remainders, powers, negations and absolute values of
integers are the exact ones if 64 bits hold them, and overflow if not; but no integer
has a remainder by 0, and the least integer none by -1, and powers overflow where their
exponent has more than 32 bits.  A step up or down at a place that holds an integer
writes the integer one further and answers the one before, or overflows in the same
way; only a place that cannot be written refuses the step. -/
theorem integers_exact_or_refused (ev : Evaluator) (a b : Int64) (pos : Position) (f : Fiber)
    (σ : Store) :
    Settles (a.toInt + b.toInt) "addition" pos f σ
      (lift (Operator.binary .add (.ofInt a) (.ofInt b) pos)) ∧
    Settles (a.toInt - b.toInt) "subtraction" pos f σ
      (lift (Operator.binary .sub (.ofInt a) (.ofInt b) pos)) ∧
    Settles (a.toInt * b.toInt) "multiplication" pos f σ
      (lift (Operator.binary .mul (.ofInt a) (.ofInt b) pos)) ∧
    (b.toInt = 0 → lift (Operator.binary .mod (.ofInt a) (.ofInt b) pos) f σ =
      .done (.error (.error ⟨.divideByZero, pos⟩)) f σ) ∧
    (b.toInt ≠ 0 → ¬ (a.toInt = Word.least ∧ b.toInt = -1) →
      Settles (a.toInt.tmod b.toInt) "remainder" pos f σ
        (lift (Operator.binary .mod (.ofInt a) (.ofInt b) pos))) ∧
    (a.toInt = Word.least → b.toInt = -1 → Overflows "remainder" pos f σ
      (lift (Operator.binary .mod (.ofInt a) (.ofInt b) pos))) ∧
    (0 ≤ b.toInt → b.toInt < 2 ^ 32 →
      Settles (a.toInt ^ b.toInt.toNat) "exponentiation" pos f σ
        (lift (Operator.binary .pow (.ofInt a) (.ofInt b) pos))) ∧
    (2 ^ 32 ≤ b.toInt → Overflows "exponentiation" pos f σ
      (lift (Operator.binary .pow (.ofInt a) (.ofInt b) pos))) ∧
    Settles (-a.toInt) "negation" pos f σ (lift (Operator.unary .neg (.ofInt a) pos)) ∧
    Settles a.toInt.natAbs "abs" f.pos f σ (Method.call ev (.ofInt a) "abs" []) ∧
    ∀ (op : PostfixOp) (target : Expr),
      (Assign.step ev op target pos =
        Assign.resolve ev target pos >>= fun place => Assign.stepAt op place pos) ∧
      ∀ place : Place, place.Live σ f.scope →
        Assign.readPlace place pos f σ = .done (.ok (.ofInt a)) f σ →
        (∀ r : Int64, r.toInt = a.toInt + Assign.delta op →
          (∃ τ, Assign.stepAt op place pos f σ = .done (.ok (.ofInt a)) f τ ∧
            ∀ pos', Assign.readPlace place pos' f τ = .done (.ok (.ofInt r)) f τ) ∨
          ∃ e, Assign.writePlace place (.ofInt r) false pos f σ =
              .done (.error (.error e)) f σ ∧
            Assign.stepAt op place pos f σ = .done (.error (.error e)) f σ) ∧
        ((∀ r : Int64, r.toInt ≠ a.toInt + Assign.delta op) →
          Overflows op.symbol pos f σ (Assign.stepAt op place pos)) := by
  refine ⟨Operator.settles_add, Operator.settles_sub, Operator.settles_mul, fun hb => ?_,
    fun hb h => ?_, Operator.mod_least, Operator.settles_pow, Operator.pow_large,
    Operator.settles_neg, settles_abs ev, fun op target => ⟨Assign.step_eq_stepAt ev op target,
      fun place hlive hread => ⟨fun r hr => Assign.stepAt_exact hlive hread hr,
        fun hnone => Assign.stepAt_overflow hread hnone⟩⟩⟩
  · obtain rfl : b = 0 := Word.toInt_injective hb
    exact Operator.mod_zero
  · have hb0 : b ≠ 0 := fun hz => hb (hz ▸ rfl)
    exact Operator.settles_mod hb0 h

/-- A single scope, where `x` is the greatest integer. -/
def fullStore : Store := (default : Store).rootScope.2.bind ⟨0⟩ "x" (.ofInt Int64.maxValue)

theorem integers_exact_or_refused_corners :
    (lift (Operator.binary .mod (.ofInt (-7)) (.ofInt 0) .unknown) default fullStore =
      .done (.error (.error ⟨.divideByZero, .unknown⟩)) default fullStore) ∧
    (lift (Operator.binary .mod (.ofInt (-7)) (.ofInt 2) .unknown) default fullStore =
      .done (.ok (.ofInt (-1))) default fullStore) ∧
    Overflows "remainder" .unknown default fullStore
      (lift (Operator.binary .mod (.ofInt Int64.minValue) (.ofInt (-1)) .unknown)) ∧
    (lift (Operator.binary .pow (.ofInt (-2)) (.ofInt 63) .unknown) default fullStore =
      .done (.ok (.ofInt Int64.minValue)) default fullStore) ∧
    Overflows "exponentiation" .unknown default fullStore
      (lift (Operator.binary .pow (.ofInt 2) (.ofInt 4294967296) .unknown)) ∧
    Overflows "++" .unknown default fullStore
      (Assign.stepAt .increment (.name "x") .unknown) ∧
    ∃ τ, Assign.stepAt .decrement (.name "x") .unknown default fullStore =
        .done (.ok (.ofInt Int64.maxValue)) default τ ∧
      Assign.readPlace (.name "x") .unknown default τ =
        .done (.ok (.ofInt (Int64.maxValue - 1))) default τ := by
  have law := fun a b => integers_exact_or_refused (evaluator 0) a b .unknown default fullStore
  have hlive : (Place.name "x").Live fullStore (default : Fiber).scope := by
    show 0 < fullStore.scopes.size
    decide
  obtain ⟨_, _, _, hzero, _⟩ := law (-7) 0
  obtain ⟨_, _, _, _, hrem, _⟩ := law (-7) 2
  obtain ⟨_, _, _, _, _, hleast, _⟩ := law Int64.minValue (-1)
  obtain ⟨_, _, _, _, _, _, hpow, _⟩ := law (-2) 63
  obtain ⟨_, _, _, _, _, _, _, hlarge, _⟩ := law 2 4294967296
  obtain ⟨_, _, _, _, _, _, _, _, _, _, hstep⟩ := law Int64.maxValue 0
  have hup := (hstep .increment (.bare (.ident "x"))).2 (.name "x") hlive rfl
  have hdown := (hstep .decrement (.bare (.ident "x"))).2 (.name "x") hlive rfl
  refine ⟨hzero rfl, (hrem (by decide) (by decide)).1 (-1) rfl, hleast rfl rfl,
    (hpow (by decide) (by decide)).1 Int64.minValue (by decide), hlarge (by decide),
    hup.2 fun r hr => ?_, ?_⟩
  · have hlt := r.toInt_lt
    rw [hr, show Int64.maxValue.toInt = 9223372036854775807 from rfl,
      show Assign.delta .increment = 1 from rfl] at hlt
    omega
  · rcases hdown.1 (Int64.maxValue - 1) (by decide) with ⟨τ, h, hread⟩ | ⟨e, hwrite, _⟩
    · exact ⟨τ, h, hread .unknown⟩
    · cases hwrite

/-- The remainder 0 and the power 1 are refused. -/
theorem small_results_refused :
    ¬ Settles (Int64.minValue.toInt.tmod (-1 : Int64).toInt) "remainder" .unknown default default
      (lift (Operator.binary .mod (.ofInt Int64.minValue) (.ofInt (-1)) .unknown)) ∧
    ¬ Settles ((1 : Int64).toInt ^ (4294967296 : Int64).toInt.toNat) "exponentiation" .unknown
      default default (lift (Operator.binary .pow (.ofInt 1) (.ofInt 4294967296) .unknown)) := by
  refine ⟨fun h => ?_, fun h => ?_⟩
  · have hzero := h.1 0 rfl
    rw [show lift (Operator.binary .mod (.ofInt Int64.minValue) (.ofInt (-1)) .unknown) default
      default = _ from Operator.mod_least rfl rfl] at hzero
    cases hzero
  · have hone := h.1 1 Int.one_pow.symm
    rw [show lift (Operator.binary .pow (.ofInt 1) (.ofInt 4294967296) .unknown) default default = _
      from Operator.pow_large (by decide)] at hone
    cases hone

end TreeWalk
