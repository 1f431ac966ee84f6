import Nolrem.Dynlib.SymList

/-!
# Modules and their versions

`kernel/dynlib/module.c`: the list of modules is searched for a symbol, and a request names the
versions that it accepts.
-/

namespace Nolrem.Dynlib

/-! ## The code -/

/-- `struct module` -/
structure Module where
  name : Name
  majorVer : UInt16
  minorVer : UInt16
  symList : SymbolList
deriving DecidableEq, Repr

/-- `MODVER_ANY` -/
def modverAny : Int := 0

/-- `MODVER_THIS_OR_HIGHER` -/
def modverThisOrHigher : Int := 1

/-- `MODVER_EXACT_MAJOR_OR_HIGHER_MINOR` -/
def modverExactMajorOrHigherMinor : Int := 2

/-- `MODVER_EXACT` -/
def modverExact : Int := 3

/-- `IsMatchingModuleVersion` -/
def isMatchingModuleVersion (mod : Module) (verMode : Int) (major minor : UInt16) : Bool :=
  if verMode = modverAny then true
  else if verMode = modverExact then mod.majorVer = major ∧ mod.minorVer = minor
  else if verMode = modverThisOrHigher then
    mod.majorVer ≥ major ∨ (mod.majorVer = major ∧ mod.minorVer ≥ minor)
  else if verMode = modverExactMajorOrHigherMinor then
    mod.majorVer = major ∧ mod.minorVer ≥ minor
  else false

/-- `FindSymbol`, and the address in the slot that it points to -/
def Module.address (z : SizeT) (strAt : Nat → Name) (sym : Name) (mod : Module) : Option Nat :=
  (findSymbol z strAt mod.symList sym).bind fun i => mod.symList.syms[i]?.map Sym.addr

/-- The module has the name that is asked for, or no name is. -/
def Module.Named (modName : Option Name) (mod : Module) : Prop :=
  modName = none ∨ modName = some mod.name

instance (modName : Option Name) : DecidablePred (Module.Named modName) :=
  fun _ => inferInstanceAs (Decidable (_ ∨ _))

/-- `ResolveSymbol`, on the list that starts at `module_list_head` -/
def resolveSymbol (z : SizeT) (strAt : Nat → Name) (sym : Name) (modName : Option Name)
    (verMode : Int) (major minor : UInt16) : List Module → Nat
  | [] => 0
  | curr :: next =>
    if curr.Named modName ∧ isMatchingModuleVersion curr verMode major minor = true then
      match curr.address z strAt sym with
      | some addr => addr
      | none => resolveSymbol z strAt sym modName verMode major minor next
    else resolveSymbol z strAt sym modName verMode major minor next

/-! ## What it is for -/

/-- The version of a module is the one that is asked for, or a later one. -/
def Module.AtLeast (major minor : UInt16) (mod : Module) : Prop :=
  Prod.Lex (· < ·) (· ≤ ·) (major, minor) (mod.majorVer, mod.minorVer)

/-- The version of a module has the major number that is asked for, and the minor one or more. -/
def Module.SameMajor (major minor : UInt16) (mod : Module) : Prop :=
  mod.majorVer = major ∧ minor ≤ mod.minorVer

theorem Module.atLeast_iff {major minor : UInt16} {mod : Module} :
    mod.AtLeast major minor ↔
      major < mod.majorVer ∨ major = mod.majorVer ∧ minor ≤ mod.minorVer := Prod.lex_def

instance (major minor : UInt16) : DecidablePred (Module.AtLeast major minor) :=
  fun _ => decidable_of_iff _ Module.atLeast_iff.symm

instance (major minor : UInt16) : DecidablePred (Module.SameMajor major minor) :=
  fun _ => inferInstanceAs (Decidable (_ ∧ _))

/-- The address in the first module that is accepted and has the symbol, and 0 if there is none -/
def firstAddress (z : SizeT) (strAt : Nat → Name) (sym : Name) (accepts : Module → Prop)
    [DecidablePred accepts] (mods : List Module) : Nat :=
  ((mods.filter fun mod => accepts mod).findSome? (Module.address z strAt sym)).getD 0

/-- The modes that accept later versions look at just those modules that they should look at. -/
structure VersionOrder (z : SizeT) (strAt : Nat → Name) (sym : Name) (modName : Option Name)
    (major minor : UInt16) (mods : List Module) : Prop where
  higher : ∀ mod ∈ mods, mod.Named modName →
    (isMatchingModuleVersion mod modverThisOrHigher major minor = true ↔ mod.AtLeast major minor)
  higherMinor : ∀ mod ∈ mods, mod.Named modName →
    (isMatchingModuleVersion mod modverExactMajorOrHigherMinor major minor = true ↔
      mod.SameMajor major minor)
  resolveHigher : resolveSymbol z strAt sym modName modverThisOrHigher major minor mods =
    firstAddress z strAt sym (fun mod => mod.Named modName ∧ mod.AtLeast major minor) mods
  resolveHigherMinor :
    resolveSymbol z strAt sym modName modverExactMajorOrHigherMinor major minor mods =
      firstAddress z strAt sym (fun mod => mod.Named modName ∧ mod.SameMajor major minor) mods

/-! ## The search -/

section

variable {z : SizeT} {strAt : Nat → Name} {sym : Name} {modName : Option Name} {verMode : Int}
  {major minor : UInt16} {mods : List Module}

/-- The search returns the first address that a module it accepts has. -/
theorem resolveSymbol_eq (z : SizeT) (strAt : Nat → Name) (sym : Name) (mods : List Module)
    {accepts : Module → Prop} [DecidablePred accepts]
    (h : ∀ mod ∈ mods, (mod.Named modName ∧
      isMatchingModuleVersion mod verMode major minor = true) ↔ accepts mod) :
    resolveSymbol z strAt sym modName verMode major minor mods =
      firstAddress z strAt sym accepts mods := by
  induction mods with
  | nil => rfl
  | cons mod mods ih =>
    have ih' := ih fun m hm => h m (List.mem_cons_of_mem _ hm)
    have hmod := h mod List.mem_cons_self
    unfold resolveSymbol firstAddress
    by_cases ha : accepts mod
    · rw [if_pos (hmod.mpr ha), List.filter_cons_of_pos (by simpa using ha), List.findSome?_cons]
      cases mod.address z strAt sym with
      | some addr => rfl
      | none => exact ih'
    · rw [if_neg (mt hmod.mp ha), List.filter_cons_of_neg (by simpa using ha)]
      exact ih'

theorem isMatching_higher_iff {mod : Module} :
    isMatchingModuleVersion mod modverThisOrHigher major minor = true ↔ major ≤ mod.majorVer := by
  have h : isMatchingModuleVersion mod modverThisOrHigher major minor =
      decide (mod.majorVer ≥ major ∨ (mod.majorVer = major ∧ mod.minorVer ≥ minor)) := rfl
  rw [h, decide_eq_true_iff]
  refine ⟨?_, .inl⟩
  rintro (hm | ⟨rfl, -⟩)
  · exact hm
  · exact UInt16.le_refl _

theorem isMatching_higherMinor_iff {mod : Module} :
    isMatchingModuleVersion mod modverExactMajorOrHigherMinor major minor = true ↔
      mod.SameMajor major minor := by
  have h : isMatchingModuleVersion mod modverExactMajorOrHigherMinor major minor =
      decide (mod.majorVer = major ∧ mod.minorVer ≥ minor) := rfl
  rw [h, decide_eq_true_iff]
  rfl

/-- The two orders differ on the major number that is asked for. -/
theorem le_major_iff_atLeast {mod : Module} :
    (major ≤ mod.majorVer ↔ mod.AtLeast major minor) ↔
      (mod.majorVer = major → minor ≤ mod.minorVer) := by
  rw [Module.atLeast_iff]
  constructor
  · rintro h rfl
    rcases h.mp (UInt16.le_refl _) with hl | ⟨-, hl⟩
    · exact absurd hl (UInt16.lt_irrefl _)
    · exact hl
  · intro h
    constructor
    · intro hm
      rcases UInt16.lt_or_eq_of_le hm with hl | he
      · exact .inl hl
      · exact .inr ⟨he, h he.symm⟩
    · rintro (hl | ⟨rfl, -⟩)
      · exact UInt16.le_of_lt hl
      · exact UInt16.le_refl _

end

/--
**Later versions are accepted as they should be if no module has the major number that is asked for
and a lower minor one.**
-/
theorem version_order_iff (z : SizeT) (strAt : Nat → Name) (sym : Name) (modName : Option Name)
    (major minor : UInt16) (mods : List Module) :
    VersionOrder z strAt sym modName major minor mods ↔
      ∀ mod ∈ mods, mod.Named modName → mod.majorVer = major → minor ≤ mod.minorVer := by
  constructor
  · intro h mod hm hn
    have hh := h.higher mod hm hn
    rw [isMatching_higher_iff] at hh
    exact le_major_iff_atLeast.mp hh
  · intro h
    have higher : ∀ mod ∈ mods, mod.Named modName →
        (isMatchingModuleVersion mod modverThisOrHigher major minor = true ↔
          mod.AtLeast major minor) := by
      intro mod hm hn
      rw [isMatching_higher_iff]
      exact le_major_iff_atLeast.mpr (h mod hm hn)
    exact ⟨higher, fun _ _ _ => isMatching_higherMinor_iff,
      resolveSymbol_eq z strAt sym mods fun mod hm => and_congr_right fun hn => higher mod hm hn,
      resolveSymbol_eq z strAt sym mods fun _ _ =>
        and_congr_right fun _ => isMatching_higherMinor_iff⟩

/-- Version 1.0 of a module is taken where 1.5 or a later one is asked for. -/
theorem version_order_older :
    let mod : Module := ⟨[75], 1, 0, filled .bits32 1 [(0, .preHashed [65] 7)]⟩
    resolveSymbol .bits32 (fun _ => []) [65] (some [75]) modverThisOrHigher 1 5 [mod] = 7 ∧
      firstAddress .bits32 (fun _ => []) [65]
        (fun mod => mod.Named (some [75]) ∧ mod.AtLeast 1 5) [mod] = 0 ∧
      ¬VersionOrder .bits32 (fun _ => []) [65] (some [75]) 1 5 [mod] := by
  intro mod
  have h : resolveSymbol .bits32 (fun _ => []) [65] (some [75]) modverThisOrHigher 1 5 [mod] = 7 ∧
      firstAddress .bits32 (fun _ => []) [65]
        (fun mod => mod.Named (some [75]) ∧ mod.AtLeast 1 5) [mod] = 0 := by decide +kernel
  refine ⟨h.1, h.2, fun hv => ?_⟩
  have he := hv.resolveHigher
  rw [h.1, h.2] at he
  cases he

end Nolrem.Dynlib
