import Mathlib.Data.List.Basic
import Mathlib.Tactic.Common

/-!
# Walks over options

The options of IP and TCP headers, as they are walked over: kind 0 is the end of the list, kind 1
one byte of padding, and any other option has its length in its second byte, which counts these
two.

A walk (`Options.Walk`) goes from the bytes of a list of options to what is left of them somewhere.
Which options it passes over is a parameter; one that passes over more of them may meet an option
where another one stops (`Options.Walk.meets`).
-/

namespace Options

/-- There are two bytes at least in an option, and not more than there are. -/
def Fits (len : UInt8) (rest : List UInt8) : Prop := 2 ≤ len.toNat ∧ len.toNat ≤ rest.length + 2

instance (len : UInt8) (rest : List UInt8) : Decidable (Fits len rest) :=
  inferInstanceAs (Decidable (_ ∧ _))

/-- **A walk** over padding and over options of some kinds and lengths. -/
inductive Walk (passes : UInt8 → UInt8 → Prop) (stop : List UInt8) : List UInt8 → Prop
  | here : Walk passes stop stop
  | padding {rest : List UInt8} (h : Walk passes stop rest) : Walk passes stop (1 :: rest)
  | option {kind len : UInt8} {rest : List UInt8} (hend : kind ≠ 0) (hpadding : kind ≠ 1)
      (hpasses : passes kind len) (hfits : Fits len rest)
      (h : Walk passes stop (rest.drop (len.toNat - 2))) : Walk passes stop (kind :: len :: rest)

variable {passes passes' : UInt8 → UInt8 → Prop} {stop opts : List UInt8}

theorem Walk.mono (hsub : ∀ kind len, passes kind len → passes' kind len)
    (h : Walk passes stop opts) : Walk passes' stop opts := by
  induction h with
  | here => exact .here
  | padding h ih => exact .padding ih
  | option hend hpadding hpasses hfits h ih =>
    exact .option hend hpadding (hsub _ _ hpasses) hfits ih

theorem Walk.trans {mid : List UInt8} (h : Walk passes mid opts) (h' : Walk passes stop mid) :
    Walk passes stop opts := by
  induction h with
  | here => exact h'
  | padding h ih => exact .padding ih
  | option hend hpadding hpasses hfits h ih => exact .option hend hpadding hpasses hfits ih

/-- **There is one way to go**: of two walks from one place, one goes on from the other. -/
theorem Walk.linear {stop' : List UInt8} (h : Walk passes stop opts)
    (h' : Walk passes stop' opts) : Walk passes stop' stop ∨ Walk passes stop stop' := by
  induction h with
  | here => exact Or.inl h'
  | padding h ih =>
    cases h' with
    | here => exact Or.inr (.padding h)
    | padding h' => exact ih h'
    | option _ hpadding _ _ _ => exact absurd rfl hpadding
  | option hend hpadding hpasses hfits h ih =>
    cases h' with
    | here => exact Or.inr (.option hend hpadding hpasses hfits h)
    | padding _ => exact absurd rfl hpadding
    | option _ _ _ _ h' => exact ih h'

/-- **Two walks go the same way**, up to the first option that only one of them passes over. -/
theorem Walk.meets (h : Walk passes' stop opts) :
    Walk passes stop opts ∨ ∃ kind len rest, Walk passes (kind :: len :: rest) opts ∧
      ¬ passes kind len ∧ passes' kind len ∧ Fits len rest ∧ kind ≠ 0 ∧ kind ≠ 1 ∧
      Walk passes' stop (rest.drop (len.toNat - 2)) := by
  induction h with
  | here => exact Or.inl .here
  | padding h ih =>
    rcases ih with ih | ⟨kind, len, rest, hwalk, hmeets⟩
    · exact Or.inl (.padding ih)
    · exact Or.inr ⟨kind, len, rest, .padding hwalk, hmeets⟩
  | @option kind len rest hend hpadding hpasses hfits h ih =>
    by_cases hsame : passes kind len
    · rcases ih with ih | ⟨kind', len', rest', hwalk, hmeets⟩
      · exact Or.inl (.option hend hpadding hsame hfits ih)
      · exact Or.inr ⟨kind', len', rest', .option hend hpadding hsame hfits hwalk, hmeets⟩
    · exact Or.inr ⟨kind, len, rest, .here, hsame, hpasses, hfits, hend, hpadding, h⟩

end Options
