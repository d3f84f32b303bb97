import Mathlib.Algebra.Order.Floor.Ring
import Mathlib.Data.Rat.Floor
import Mathlib.Tactic.FieldSimp
import Mathlib.Tactic.Linarith
import ManagedRuntime.Proofs.Program.Unwinds

/-!
# Divisions that trap

Divisors are not checked before a division: the divide instruction traps, and its fault goes to a region.

* `Truncates` : a quotient and the remainder that it leaves, which is small and has the sign of the dividend;
* `Truncates.unique`, `Truncates.eq_towardZero` : there is one such pair, and its quotient is rounded toward zero;
* `truncates_of_divide?` : the instruction on a word that has been widened gives this pair;
* `CallTraps` : a call that gives no answer, whose fault is reported by a region;
* `division_traps_or_truncates` : both calls, for every pair of operands.
-/

namespace ManagedRuntime.Program

open Execution

set_option autoImplicit false

/-! ## Division toward zero -/

section

variable {a b q r : Int}

/-- A quotient, and a remainder that is smaller than the divisor and has the sign of the dividend. -/
structure Truncates (a b q r : Int) : Prop where
  sum : a = q * b + r
  small : r.natAbs < b.natAbs
  sign : r = 0 ∨ r.sign = a.sign

/-- A rational number without its fraction. -/
def towardZero (x : ℚ) : Int := if 0 ≤ x then ⌊x⌋ else ⌈x⌉

theorem truncates_tdiv (hb : b ≠ 0) : Truncates a b (a.tdiv b) (a.tmod b) where
  sum := (Int.tdiv_mul_add_tmod a b).symm
  small := by
    rw [Int.natAbs_tmod]
    exact Nat.mod_lt _ (Int.natAbs_pos.2 hb)
  sign := by
    have hsign := Int.sign_tmod a b
    split at hsign
    · exact .inl (Int.sign_eq_zero_iff_zero.1 hsign)
    · exact .inr hsign

namespace Truncates

variable (h : Truncates a b q r)

include h

theorem ne_zero : b ≠ 0 := by
  have hsmall := h.small
  omega

theorem nonneg (ha : 0 ≤ a) : 0 ≤ r := by
  obtain hr | hr := h.sign
  · omega
  · rwa [← Int.sign_nonneg_iff, hr, Int.sign_nonneg_iff]

theorem nonpos (ha : a ≤ 0) : r ≤ 0 := by
  obtain hr | hr := h.sign
  · omega
  · rwa [← Int.sign_nonpos_iff, hr, Int.sign_nonpos_iff]

/-- Two remainders lie on the same side of zero, and so nearer to each other than the divisor. -/
theorem unique {q' r' : Int} (h' : Truncates a b q' r') : q' = q ∧ r' = r := by
  have hdiff : r' - r = (q - q') * b := by
    rw [Int.sub_mul]
    have hsum := h.sum
    have hsum' := h'.sum
    omega
  have hnear : (r' - r).natAbs < b.natAbs := by
    have hsmall := h.small
    have hsmall' := h'.small
    obtain ha | ha := Int.le_total 0 a
    · have hr := h.nonneg ha
      have hr' := h'.nonneg ha
      omega
    · have hr := h.nonpos ha
      have hr' := h'.nonpos ha
      omega
  have hr : r' - r = 0 := Int.eq_zero_of_dvd_of_natAbs_lt_natAbs ⟨q - q', by rw [hdiff, Int.mul_comm]⟩ hnear
  have hq : q - q' = 0 := by
    rw [hr] at hdiff
    exact (Int.mul_eq_zero.1 hdiff.symm).resolve_right h.ne_zero
  exact ⟨by omega, by omega⟩

/-- The fraction that the quotient leaves out is on the same side of zero as the exact quotient. -/
theorem fraction_nonneg (hx : 0 ≤ (a : ℚ) / b) : 0 ≤ (r : ℚ) / b := by
  obtain ⟨ha, hb⟩ | ⟨ha, hb⟩ := div_nonneg_iff.1 hx
  · exact div_nonneg (Int.cast_nonneg (h.nonneg (Int.cast_nonneg_iff.1 ha))) hb
  · exact div_nonneg_of_nonpos (Int.cast_nonpos.2 (h.nonpos (Int.cast_nonpos.1 ha))) hb

theorem fraction_nonpos (hx : (a : ℚ) / b ≤ 0) : (r : ℚ) / b ≤ 0 := by
  obtain ⟨ha, hb⟩ | ⟨ha, hb⟩ := div_nonpos_iff.1 hx
  · exact div_nonpos_of_nonneg_of_nonpos (Int.cast_nonneg (h.nonneg (Int.cast_nonneg_iff.1 ha))) hb
  · exact div_nonpos_of_nonpos_of_nonneg (Int.cast_nonpos.2 (h.nonpos (Int.cast_nonpos.1 ha))) hb

theorem eq_towardZero : q = towardZero ((a : ℚ) / b) := by
  have hb : (b : ℚ) ≠ 0 := Int.cast_ne_zero.2 h.ne_zero
  have hsplit : (a : ℚ) / b = q + r / b := by
    rw [h.sum]
    push_cast
    field_simp
  have hsmall : |r| < |b| := by
    rw [Int.abs_eq_natAbs, Int.abs_eq_natAbs]
    exact_mod_cast h.small
  have hfraction : |(r : ℚ) / b| < 1 := by
    rw [abs_div, div_lt_one (abs_pos.2 hb)]
    exact_mod_cast hsmall
  rw [abs_lt] at hfraction
  obtain ⟨hlow, hhigh⟩ := hfraction
  unfold towardZero
  split
  next hx =>
    have hside := h.fraction_nonneg hx
    rw [eq_comm, Int.floor_eq_iff, hsplit]
    constructor <;> linarith
  next hx =>
    have hside := h.fraction_nonpos (le_of_not_ge hx)
    rw [eq_comm, Int.ceil_eq_iff, hsplit]
    constructor <;> linarith

end Truncates

end

/-! ## The instruction -/

section

variable {a b q r : Int32}

/-- Both results are words, so that nothing is lost when they are put back into words. -/
theorem truncates_of_divide? (h : Word.divide? a b = some (q, r)) : Truncates a.toInt b.toInt q.toInt r.toInt := by
  unfold Word.divide? Word.divideWide? at h
  rw [Int32.toInt_toInt64] at h
  dsimp only at h
  split at h
  next => cases h
  next hfits =>
    cases h
    rw [not_or, not_or] at hfits
    obtain ⟨hzero, hlow, hhigh⟩ := hfits
    have hmin : Int32.minValue.toInt = -2147483648 := rfl
    have hmax : Int32.maxValue.toInt = 2147483647 := rfl
    have hb : b.toInt ≠ 0 := fun hb => hzero (Int32.toInt_inj.1 hb)
    have htruncates : Truncates a.toInt b.toInt (a.toInt.tdiv b.toInt) (a.toInt.tmod b.toInt) := truncates_tdiv hb
    have hsmall := htruncates.small
    have hblow := Int32.minValue_le_toInt b
    have hbhigh := Int32.toInt_le b
    rw [Int32.toInt_ofInt_of_le (by omega) (by omega), Int32.toInt_ofInt_of_le (by omega) (by omega)]
    exact htruncates

/-- The operands that trap, as integers. -/
theorem traps_iff : Word.Traps a b ↔ b.toInt = 0 ∨ a.toInt = -2147483648 ∧ b.toInt = -1 := by
  have hzero : b.toInt = 0 ↔ b = 0 := Int32.toInt_inj (y := 0)
  have hmin : a.toInt = -2147483648 ↔ a = Int32.minValue := Int32.toInt_inj (y := Int32.minValue)
  have hone : b.toInt = -1 ↔ b = -1 := Int32.toInt_inj (y := -1)
  rw [hzero, hmin, hone, Word.Traps]

end

/-! ## Calls -/

/-- A call that gives no answer: its fault goes to the innermost region, which reports it as a division by zero. -/
structure CallTraps (routine : Routine) : Prop where
  unanswered (ω : Type) (m m' : Machine ω) (v : Value) : routine.run m ≠ (.done v, m')
  /-- A region around the call reports the fault, and makes it the exception of the thread. -/
  reported (ω : Type) (m : Machine ω) : m.process.init.disposition .fpe = .intercept →
    ∃ m', protect routine.run m = (.done (.fault .divideByZero), m') ∧ m'.thread.exception = .ofFault .divideByZero
  /-- Wherever a program comes to the call, the region around it reports the fault, or the process dies. -/
  delivered (inline : Bool) (program : Statement) (process : Process) (world : World) (c : Point) :
    Reaches inline (program.initial process world) c → c.control = .run (.perform (.call routine)) →
    c.machine.process.disposition .fpe = .intercept →
    (c.Delivers inline .divideByZero ↔ c.regions ≠ [] ∧ c.machine.thread.unwindingSinceEntry = false) ∧
      (¬ c.Delivers inline .divideByZero → c.Dies inline .fpe)
  /-- A signal that is not intercepted kills. -/
  fatal (ω : Type) (m : Machine ω) : m.process.disposition .fpe ≠ .intercept →
    routine.run m = (.ended (.killed .fpe), m)

section

variable {ω α : Type} {m : Machine ω}

theorem intercept_ne_done (s : Signal) (f : Fault) (m' : Machine ω) (v : α) :
    (intercept s f : Action ω α) m ≠ (.done v, m') := by
  unfold intercept
  split
  next => exact nofun
  next =>
    split
    next => exact nofun
    next => exact nofun

theorem trap_division_of_not_intercepted (hd : m.process.disposition .fpe ≠ .intercept) :
    (Execution.trap .division : Action ω α) m = (.ended (.killed .fpe), m) := by
  have hsignal : Trap.division.signal = .fpe := rfl
  unfold Execution.trap
  rw [hsignal]
  cases h : m.process.disposition .fpe with
  | intercept => exact absurd h hd
  | fatal | watch => rfl

/-- Nothing behind the instruction is executed. -/
theorem trap_division_ne_done (m' : Machine ω) (v : α) :
    (Execution.trap .division : Action ω α) m ≠ (.done v, m') := by
  by_cases hd : m.process.disposition .fpe = .intercept
  · rw [trap_intercepted (t := .division) hd]
    exact intercept_ne_done _ _ m' v
  · rw [trap_division_of_not_intercepted hd]
    exact nofun

/-- Whatever unwinds has begun before the region of the trap was entered. -/
theorem protect_trap {t : Trap} (hd : m.process.init.disposition t.signal = .intercept) :
    ∃ m', protect (Execution.trap t : Action ω α) m = (.done (.fault t.fault), m') ∧
      m'.thread.exception = .ofFault t.fault := by
  have hentry : m.enter.thread.unwindingSinceEntry = false := by
    show (m.thread.isUnwinding && !m.thread.isUnwinding) = false
    exact Bool.and_not_self _
  have htrap := trap_intercepted (α := α) (m := m.enter) hd
  rw [intercept_of_current (m := m.enter) rfl hentry] at htrap
  exact ⟨_, (congrArg (land m.thread) htrap).trans (if_pos rfl), rfl⟩

end

theorem callTraps {routine : Routine}
    (hrun : ∀ ω, (routine.run : Action ω Value) = Execution.trap .division)
    (hfault : (Instruction.call routine).fault? = some (.fpe, .divideByZero)) : CallTraps routine where
  unanswered ω m m' v := by
    rw [hrun]
    exact trap_division_ne_done m' v
  reported ω m hd := by
    rw [hrun]
    exact protect_trap (t := .division) hd
  delivered inline program process world c hreach hcontrol hd := by
    have hfaults : c.Faults .fpe .divideByZero := ⟨_, hcontrol, hfault, hd⟩
    have hfits := fits_of_reaches (fits_run program ⟨process, .fresh, world⟩) hreach
    exact hfaults.delivers_iff inline (hfits.stacked_of_calm hfaults.calm)
  fatal ω m hd := by
    rw [hrun]
    exact trap_division_of_not_intercepted hd

/-- Two words that are a quotient and its remainder, as the two calls answer them. -/
structure CallsReturn (a b q r : Int32) : Prop where
  quotient (ω : Type) (m : Machine ω) : (Routine.divide a b).run m = (.done (.word q), m)
  remainder (ω : Type) (m : Machine ω) : (Routine.modulo a b).run m = (.done (.word r), m)
  truncates : Truncates a.toInt b.toInt q.toInt r.toInt
  unique (q' r' : Int) : Truncates a.toInt b.toInt q' r' → q' = q.toInt ∧ r' = r.toInt
  rounded : q.toInt = towardZero ((a.toInt : ℚ) / b.toInt)

section

variable {a b q r : Int32}

theorem callTraps_divide (h : Word.Traps a b) : CallTraps (.divide a b) := by
  apply callTraps
  · intro ω
    simp only [Routine.run, dividing, Word.divide?_eq_none_iff.2 h]
  · simp only [Instruction.fault?, if_pos h]
    rfl

theorem callTraps_modulo (h : Word.Traps a b) : CallTraps (.modulo a b) := by
  apply callTraps
  · intro ω
    simp only [Routine.run, dividing, Word.divide?_eq_none_iff.2 h]
  · simp only [Instruction.fault?, if_pos h]
    rfl

theorem callsReturn (h : Word.divide? a b = some (q, r)) : CallsReturn a b q r where
  quotient ω m := by
    simp only [Routine.run, dividing, h]
    rfl
  remainder ω m := by
    simp only [Routine.run, dividing, h]
    rfl
  truncates := truncates_of_divide? h
  unique _ _ h' := (truncates_of_divide? h).unique h'
  rounded := (truncates_of_divide? h).eq_towardZero

end

/--
**Divisions that trap.** Where the divisor is zero or the quotient is no word, neither call answers, and a region
around it reports a division by zero. Everywhere else both calls answer, with the quotient rounded toward zero and the
remainder that it leaves.
-/
theorem division_traps_or_truncates (a b : Int32) :
    ((b.toInt = 0 ∨ a.toInt = -2147483648 ∧ b.toInt = -1) ∧ CallTraps (.divide a b) ∧ CallTraps (.modulo a b)) ∨
    (¬ (b.toInt = 0 ∨ a.toInt = -2147483648 ∧ b.toInt = -1) ∧ ∃ q r, CallsReturn a b q r) := by
  rw [← traps_iff]
  by_cases htraps : Word.Traps a b
  · exact .inl ⟨htraps, callTraps_divide htraps, callTraps_modulo htraps⟩
  · obtain ⟨⟨q, r⟩, hresult⟩ := Option.ne_none_iff_exists'.1 (mt Word.divide?_eq_none_iff.1 htraps)
    exact .inr ⟨htraps, q, r, callsReturn hresult⟩

/-- The remainder has the sign of the dividend, and where the quotient is no word there is no remainder either. -/
example : Word.divide? (-7) 2 = some (-3, -1) ∧ Word.divide? 7 (-3) = some (-2, 1) ∧
    Word.divide? Int32.minValue (-1) = none := by decide

end ManagedRuntime.Program
