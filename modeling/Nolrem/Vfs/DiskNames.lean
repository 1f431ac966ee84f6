import Mathlib.Data.List.Induction
import Mathlib.Data.List.TakeWhile
import Nolrem.Vfs.Name

/-!
# Names of disks

The first half of `kernel/vfs/diskutil.c`. A name is a fixed part and a number, and the function
that writes the number does not take all of them. A counter is an `int`, which is taken to wrap.
-/

namespace Nolrem.Vfs.DiskUtil

/-! ## The code -/

/-- The `char` that a number is stored as -/
def charOf (n : Int) : Char := Char.ofNat (n % 256).toNat

/-- What `AppendNumberToString` puts into `num_str`, up to the first character that ends it -/
def numStr (num : Int) : Name :=
  (if num < 10 then [charOf (num + 48)]
  else if num < 100 then [charOf (num / 10 + 48), charOf (num % 10 + 48)]
  else [charOf (num / 100 + 48), charOf (num / 10 % 10 + 48), charOf (num % 10 + 48)]).takeWhile
    (· ≠ charOf 0)

/-- `AppendNumberToString` -/
def appendNumberToString (str : Name) (num : Int) : Nat × Name :=
  if num ≥ 1000 then (einval, str) else (0, str ++ numStr num)

/-- `DISKUTIL_TYPE_OTHER` -/
def diskutilTypeOther : Nat := 7

/-- `__DISKUTIL_NUM_TYPES` -/
def diskutilNumTypes : Nat := 8

/-- `type_strings`, by the number of the type -/
def typeStrings : Nat → Name
  | 0 => "hd".toList
  | 1 => "fd".toList
  | 2 => "cd".toList
  | 3 => "rm".toList
  | 4 => "net".toList
  | 5 => "virt".toList
  | 6 => "ram".toList
  | _ => "other".toList

/-- `next_mounted_disk_num` and `type_table` -/
structure Counters where
  nextMountedDiskNum : Int
  typeTable : Nat → Int

/-- What `InitDiskUtil` leaves -/
def initDiskUtil : Counters where
  nextMountedDiskNum := 0
  typeTable _ := 0

/-- The `int` that a number is stored as -/
def wrapInt (n : Int) : Int := Int.bmod n 4294967296

/-- `++` on an `int` -/
def increment (n : Int) : Int := wrapInt (n + 1)

/-- `GenerateNewMountedDiskName` -/
def generateNewMountedDiskName (s : Counters) : Name × Counters :=
  let diskNum := s.nextMountedDiskNum
  ((appendNumberToString "drv".toList diskNum).2,
    { s with nextMountedDiskNum := increment diskNum })

/-- The type under which `GenerateNewRawDiskName` counts a disk -/
def knownType (type : Int) : Nat :=
  if type ≥ diskutilNumTypes ∨ type < 0 then diskutilTypeOther else type.toNat

/-- `GenerateNewRawDiskName` -/
def generateNewRawDiskName (s : Counters) (type : Int) : Name × Counters :=
  let type := knownType type
  let diskNum := s.typeTable type
  ((appendNumberToString ("raw-".toList ++ typeStrings type) diskNum).2,
    { s with typeTable := Function.update s.typeTable type (increment diskNum) })

/-! ## Calls -/

inductive Call
  | mounted
  | raw (type : Int)
deriving DecidableEq, Repr

def Call.exec (s : Counters) : Call → Name × Counters
  | .mounted => generateNewMountedDiskName s
  | .raw type => generateNewRawDiskName s type

/-- The counters after a list of calls -/
def Counters.after (s : Counters) (calls : List Call) : Counters :=
  calls.foldl (fun s c => (c.exec s).2) s

/-- The names that a list of calls returns -/
def names (s : Counters) : List Call → List Name
  | [] => []
  | c :: calls => (c.exec s).1 :: names (c.exec s).2 calls

/-- The disks that are counted together: those that are mounted, or the raw ones of a type -/
def Call.kind : Call → Option Nat
  | .mounted => none
  | .raw type => some (knownType type)

/-- How many disks of a kind there are -/
def countKind (kind : Option Nat) (calls : List Call) : Nat := (calls.map Call.kind).count kind

/-! ## Numbers -/

/-- The character is a decimal digit. -/
def IsDigit (c : Char) : Prop := 48 ≤ c.toNat ∧ c.toNat < 58

instance : DecidablePred IsDigit := fun _ => inferInstanceAs (Decidable (_ ∧ _))

/-- The digits that are written for a small number -/
def digits (n : Nat) : List Nat :=
  if n < 10 then [n] else if n < 100 then [n / 10, n % 10] else [n / 100, n / 10 % 10, n % 10]

/-- The number that digits stand for -/
def number (s : Name) : Nat := s.foldl (fun n c => 10 * n + (c.toNat - 48)) 0

theorem toNat_charOf : ∀ d < 10, (charOf ((d : Nat) + 48)).toNat = d + 48 := by decide

theorem digits_lt {n d : Nat} (h : n < 1000) (hd : d ∈ digits n) : d < 10 := by
  unfold digits at hd
  split at hd
  · rw [List.mem_singleton.mp hd]
    assumption
  split at hd
  all_goals
    simp only [List.mem_cons, List.not_mem_nil, or_false] at hd
    omega

theorem numStr_eq {n : Nat} (h : n < 1000) :
    numStr n = (digits n).map fun d => charOf ((d : Nat) + 48) := by
  have hw : numStr n = ((digits n).map fun d => charOf ((d : Nat) + 48)).takeWhile
      (· ≠ charOf 0) := by
    unfold numStr digits
    by_cases h10 : n < 10
    · rw [if_pos h10, if_pos (by omega)]
      rfl
    · rw [if_neg h10, if_neg (by omega)]
      by_cases h100 : n < 100
      · rw [if_pos h100, if_pos (by omega)]
        rfl
      · rw [if_neg h100, if_neg (by omega)]
        rfl
  rw [hw, List.takeWhile_eq_self_iff]
  intro c hc
  obtain ⟨d, hd, rfl⟩ := List.mem_map.mp hc
  have ht := toNat_charOf d (digits_lt h hd)
  simp only [ne_eq, decide_not, Bool.not_eq_eq_eq_not, Bool.not_true, decide_eq_false_iff_not]
  intro he
  rw [he] at ht
  exact absurd ht (Nat.ne_of_lt (Nat.succ_pos _))

theorem isDigit_numStr {n : Nat} (h : n < 1000) : ∀ c ∈ numStr n, IsDigit c := by
  intro c hc
  rw [numStr_eq h] at hc
  obtain ⟨d, hd, rfl⟩ := List.mem_map.mp hc
  have hd := digits_lt h hd
  have ht := toNat_charOf d hd
  exact ⟨by omega, by omega⟩

/-- The digits can be read back. -/
theorem number_numStr {n : Nat} (h : n < 1000) : number (numStr n) = n := by
  have hc := toNat_charOf
  rw [numStr_eq h]
  unfold digits
  split
  · simp only [number, List.map_cons, List.map_nil, List.foldl_cons, List.foldl_nil]
    rw [hc n (by omega)]
    omega
  split
  · simp only [number, List.map_cons, List.map_nil, List.foldl_cons, List.foldl_nil]
    rw [hc (n / 10) (by omega), hc (n % 10) (by omega)]
    omega
  · simp only [number, List.map_cons, List.map_nil, List.foldl_cons, List.foldl_nil]
    rw [hc (n / 100) (by omega), hc (n / 10 % 10) (by omega), hc (n % 10) (by omega)]
    omega

theorem length_numStr (num : Int) : (numStr num).length ≤ 3 := by
  unfold numStr
  refine Nat.le_trans (List.takeWhile_prefix _).length_le ?_
  split
  · exact Nat.le_of_ble_eq_true rfl
  split
  · exact Nat.le_of_ble_eq_true rfl
  · exact Nat.le_refl _

/-! ## One name -/

/-- The fixed part of a name -/
def label : Option Nat → Name
  | none => "drv".toList
  | some type => "raw-".toList ++ typeStrings type

/-- The number that the next name of a kind gets -/
def Counters.next (s : Counters) : Option Nat → Int
  | none => s.nextMountedDiskNum
  | some type => s.typeTable type

/-- The name with a number -/
def nameOf (kind : Option Nat) (num : Int) : Name := (appendNumberToString (label kind) num).2

theorem exec_name (s : Counters) (c : Call) : (c.exec s).1 = nameOf c.kind (s.next c.kind) := by
  cases c <;> rfl

theorem exec_next (s : Counters) (c : Call) (kind : Option Nat) :
    (c.exec s).2.next kind = if kind = c.kind then increment (s.next kind) else s.next kind := by
  cases c with
  | mounted =>
    cases kind with
    | none => rfl
    | some type => rfl
  | raw type =>
    cases kind with
    | none => rfl
    | some t =>
      by_cases h : t = knownType type
      · subst h
        refine Eq.trans ?_ (if_pos rfl).symm
        exact Function.update_self _ _ _
      · refine Eq.trans ?_ (if_neg fun he => h (Option.some.inj he)).symm
        exact Function.update_of_ne h _ _

theorem nameOf_small (kind : Option Nat) {n : Nat} (h : n < 1000) :
    nameOf kind n = label kind ++ numStr n := by
  unfold nameOf appendNumberToString
  rw [if_neg (by omega)]

/-- A large number is left out. -/
theorem nameOf_large (kind : Option Nat) {n : Nat} (h : 1000 ≤ n) : nameOf kind n = label kind := by
  unfold nameOf appendNumberToString
  rw [if_pos (by omega)]

theorem length_nameOf (kind : Option Nat) (num : Int) : (nameOf kind num).length < 16 := by
  have hn := length_numStr num
  have hl : (label kind).length ≤ 9 := by
    unfold label typeStrings
    split
    · decide
    split <;> decide
  unfold nameOf appendNumberToString
  split
  · simp only
    omega
  · simp only [List.length_append]
    omega

theorem kind_known (c : Call) : c.kind ∈ none :: (List.range diskutilNumTypes).map some := by
  cases c with
  | mounted => exact List.mem_cons_self
  | raw type =>
    refine List.mem_cons_of_mem _ (List.mem_map.mpr ⟨knownType type, ?_, rfl⟩)
    rw [List.mem_range]
    unfold knownType
    split
    · decide
    · unfold diskutilNumTypes at *
      omega

theorem label_inj : ∀ a ∈ none :: (List.range diskutilNumTypes).map some,
    ∀ b ∈ none :: (List.range diskutilNumTypes).map some, label a = label b → a = b := by
  decide

theorem not_isDigit_label (kind : Option Nat) : ∀ c ∈ label kind, ¬IsDigit c := by
  have hall : (label kind).all (fun c => !decide (IsDigit c)) = true := by
    unfold label typeStrings
    split
    · decide
    split <;> decide
  intro c hc
  simpa only [Bool.not_eq_true', decide_eq_false_iff_not] using List.all_eq_true.mp hall c hc

/-- The fixed part of a name ends where its digits begin. -/
theorem label_eq_takeWhile (kind : Option Nat) {ds : Name} (h : ∀ c ∈ ds, IsDigit c) :
    (label kind ++ ds).takeWhile (fun c => ¬IsDigit c) = label kind := by
  rw [List.takeWhile_append_of_pos fun c hc => decide_eq_true (not_isDigit_label kind c hc)]
  cases ds with
  | nil => rw [List.takeWhile_nil, List.append_nil]
  | cons d ds =>
    rw [List.takeWhile_cons_of_neg (by simpa using h d List.mem_cons_self), List.append_nil]

/-- The names up to the first one without a number are different. -/
theorem nameOf_inj {a b : Option Nat} {m n : Nat}
    (ha : a ∈ none :: (List.range diskutilNumTypes).map some)
    (hb : b ∈ none :: (List.range diskutilNumTypes).map some) (hm : m < 1001) (hn : n < 1001)
    (h : nameOf a m = nameOf b n) : a = b ∧ m = n := by
  have hform (kind : Option Nat) {k : Nat} (hk : k < 1001) : ∃ ds : Name,
      nameOf kind k = label kind ++ ds ∧ (∀ c ∈ ds, IsDigit c) ∧
        ((k < 1000 ∧ number ds = k ∧ ds ≠ []) ∨ (k = 1000 ∧ ds = [])) := by
    by_cases h1000 : k < 1000
    · refine ⟨numStr k, nameOf_small kind h1000, isDigit_numStr h1000,
        .inl ⟨h1000, number_numStr h1000, ?_⟩⟩
      rw [numStr_eq h1000]
      unfold digits
      split
      · simp
      split <;> simp
    · refine ⟨[], ?_, fun _ hc => absurd hc List.not_mem_nil, .inr ⟨by omega, rfl⟩⟩
      rw [nameOf_large kind (by omega), List.append_nil]
  obtain ⟨ds, hds, hdig, hnum⟩ := hform a hm
  obtain ⟨es, hes, heig, henum⟩ := hform b hn
  rw [hds, hes] at h
  have hl : label a = label b := by
    rw [← label_eq_takeWhile a hdig, ← label_eq_takeWhile b heig, h]
  have he : ds = es := by
    rw [hl] at h
    exact List.append_cancel_left h
  refine ⟨label_inj a ha b hb hl, ?_⟩
  subst he
  rcases hnum with ⟨-, h1, h2⟩ | ⟨h1, h2⟩
  · rcases henum with ⟨-, h3, -⟩ | ⟨-, h4⟩
    · exact h1.symm.trans h3
    · exact absurd h4 h2
  · rcases henum with ⟨-, -, h4⟩ | ⟨h3, -⟩
    · exact absurd h2 h4
    · exact h1.trans h3.symm

/-! ## Runs -/

theorem after_append (s : Counters) (calls : List Call) (c : Call) :
    s.after (calls ++ [c]) = (c.exec (s.after calls)).2 := by
  rw [Counters.after, List.foldl_append]
  rfl

theorem names_append (s : Counters) (calls : List Call) (c : Call) :
    names s (calls ++ [c]) = names s calls ++ [(c.exec (s.after calls)).1] := by
  induction calls generalizing s with
  | nil => rfl
  | cons d calls ih => simp only [List.cons_append, names, ih, Counters.after, List.foldl_cons]

theorem countKind_append (kind : Option Nat) (calls : List Call) (c : Call) :
    countKind kind (calls ++ [c]) = countKind kind calls + if kind = c.kind then 1 else 0 := by
  unfold countKind
  rw [List.map_append, List.count_append, List.map_singleton, List.count_singleton]
  simp only [beq_iff_eq, eq_comm (a := c.kind)]

/-- A counter that is in use is not large yet. -/
theorem wrapInt_small {n : Nat} (h : n ≤ 1001) : wrapInt n = n := by
  unfold wrapInt
  exact Int.bmod_eq_of_le (by omega) (by omega)

theorem increment_wrapInt (n : Nat) : increment (wrapInt n) = wrapInt (n + 1 : Nat) := by
  unfold increment wrapInt
  rw [Int.bmod_add_bmod, Int.natCast_add, Int.natCast_one]

attribute [irreducible] wrapInt

theorem next_after (calls : List Call) (kind : Option Nat) :
    (initDiskUtil.after calls).next kind = wrapInt (countKind kind calls) := by
  induction calls using List.reverseRecOn with
  | nil =>
    refine Eq.trans ?_ (wrapInt_small (Nat.zero_le _)).symm
    cases kind <;> rfl
  | append_singleton calls c ih =>
    rw [after_append, exec_next, countKind_append, ih]
    split
    · exact increment_wrapInt _
    · rw [Nat.add_zero]

theorem mem_names {calls : List Call} {name : Name} :
    name ∈ names initDiskUtil calls ↔
      ∃ kind, ∃ k < countKind kind calls, name = nameOf kind (wrapInt k) := by
  induction calls using List.reverseRecOn with
  | nil => simp [names, countKind]
  | append_singleton calls c ih =>
    rw [names_append, List.mem_append, List.mem_singleton, ih, exec_name, next_after]
    simp only [countKind_append]
    constructor
    · rintro (⟨kind, k, hk, rfl⟩ | rfl)
      · exact ⟨kind, k, by omega, rfl⟩
      · exact ⟨c.kind, countKind c.kind calls, by rw [if_pos rfl]; omega, rfl⟩
    · rintro ⟨kind, k, hk, rfl⟩
      by_cases hlt : k < countKind kind calls
      · exact .inl ⟨kind, k, hlt, rfl⟩
      · split at hk
        · next he =>
          subst he
          rw [show k = countKind c.kind calls by omega]
          exact .inr rfl
        · omega

theorem kind_of_countKind {kind : Option Nat} {calls : List Call} (h : 0 < countKind kind calls) :
    kind ∈ none :: (List.range diskutilNumTypes).map some := by
  obtain ⟨c, -, rfl⟩ := List.mem_map.mp (List.count_pos_iff.mp h)
  exact kind_known c

theorem nodup_names_iff (calls : List Call) :
    (names initDiskUtil calls).Nodup ↔ ∀ kind, countKind kind calls ≤ 1001 := by
  induction calls using List.reverseRecOn with
  | nil => simp [names, countKind]
  | append_singleton calls c ih =>
    rw [names_append, List.nodup_append, ih, exec_name, next_after]
    constructor
    · rintro ⟨hall, -, hnew⟩ kind
      rw [countKind_append]
      split
      · next he =>
        subst he
        by_contra hgt
        have hc : countKind c.kind calls = 1001 := by
          have := hall c.kind
          omega
        -- The name before this one had no number either.
        refine hnew _ (mem_names.mpr ⟨c.kind, 1000, by omega, rfl⟩) _ List.mem_cons_self ?_
        rw [hc, wrapInt_small (Nat.le_refl _), wrapInt_small (by decide),
          nameOf_large _ (by decide), nameOf_large _ (by decide)]
      · exact hall kind
    · intro hall
      have hle (kind : Option Nat) : countKind kind calls ≤ 1001 := by
        have := hall kind
        rw [countKind_append] at this
        omega
      have hlast : countKind c.kind calls < 1001 := by
        have := hall c.kind
        rw [countKind_append, if_pos rfl] at this
        omega
      refine ⟨hle, by simp, fun name hname new hnew he => ?_⟩
      obtain ⟨kind, k, hk, rfl⟩ := mem_names.mp hname
      have hk' : k < 1001 := Nat.lt_of_lt_of_le hk (hle kind)
      rw [List.mem_singleton.mp hnew, wrapInt_small (Nat.le_of_lt hk'),
        wrapInt_small (Nat.le_of_lt hlast)] at he
      obtain ⟨rfl, hkk⟩ :=
        nameOf_inj (kind_of_countKind (Nat.zero_lt_of_lt hk)) (kind_known c) hk' hlast he
      omega

/--
**Names are different while no more than 1001 disks of a kind are named.**

The kinds are the mounted disks and each type of raw ones. Names fit into their buffers in any case.
-/
theorem disk_names_iff (calls : List Call) :
    ((names initDiskUtil calls).Nodup ∧ ∀ name ∈ names initDiskUtil calls, name.length + 1 ≤ 16) ↔
      ∀ kind, countKind kind calls ≤ 1001 := by
  rw [nodup_names_iff, and_iff_left]
  intro name hname
  obtain ⟨kind, k, -, rfl⟩ := mem_names.mp hname
  exact length_nameOf kind _

/-- The disks that are mounted after the first thousand all get the same name. -/
theorem disk_names_repeat :
    (Call.exec (initDiskUtil.after (List.replicate 1000 .mounted)) .mounted).1 = "drv".toList ∧
      (Call.exec (initDiskUtil.after (List.replicate 1001 .mounted)) .mounted).1 = "drv".toList ∧
      ¬(names initDiskUtil (List.replicate 1002 .mounted)).Nodup := by
  have hc (n : Nat) : countKind none (List.replicate n .mounted) = n := by
    rw [countKind, List.map_replicate]
    exact List.count_replicate_self
  refine ⟨?_, ?_, fun h => ?_⟩
  · rw [exec_name, next_after]
    exact (congrArg _ (congrArg _ (congrArg _ (hc 1000)))).trans
      ((congrArg _ (wrapInt_small (by decide))).trans (nameOf_large none (by decide)))
  · rw [exec_name, next_after]
    exact (congrArg _ (congrArg _ (congrArg _ (hc 1001)))).trans
      ((congrArg _ (wrapInt_small (by decide))).trans (nameOf_large none (by decide)))
  · rw [nodup_names_iff] at h
    have hle := h none
    rw [hc] at hle
    exact absurd hle (by decide)

end Nolrem.Vfs.DiskUtil
