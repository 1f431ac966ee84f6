import Mathlib.Data.Finset.Card
import Mathlib.Data.List.GetD
import Nolrem.Vfs.Name

/-!
# Short names

`kernel/fs/fat/mksfn.c`: an 8.3 name is made from a long one, and a number keeps it apart from the
others. A function that writes through a pointer gives its writes, in order; an offset is from
`sfn_out`.
-/

namespace Nolrem.Fs.ShortName

open Vfs (einval)

/-! ## The code -/

/-- `isalnum` -/
def isalnum (c : UInt8) : Bool := (65 ≤ c ∧ c ≤ 90) ∨ (97 ≤ c ∧ c ≤ 122) ∨ (48 ≤ c ∧ c ≤ 57)

/-- `toupper` -/
def toupper (c : UInt8) : UInt8 := if 97 ≤ c ∧ c ≤ 122 then c - 32 else c

/-- `other_valid`: the punctuation that a short name may have -/
def otherValid : List UInt8 := [33, 35, 36, 37, 38, 39, 40, 41, 45, 64, 94, 95, 96, 123, 125, 126]

/-- `IsValidSFNCharacter` -/
def isValidSFNCharacter (c : UInt8) : Bool := isalnum c || otherValid.contains c

/-- The place after the last dot of the rest of a name, which is at `i` -/
def afterLastDot : List UInt8 → Nat → Option Nat → Option Nat
  | [], _, found => found
  | c :: cs, i, found => afterLastDot cs (i + 1) (if c = 46 then some (i + 1) else found)

/-- `GetShortFileExtensionStart`, as an index -/
def getShortFileExtensionStart (lfn : List UInt8) : Nat :=
  (afterLastDot lfn 0 none).getD lfn.length

/-- What is stored, byte by byte, from `i` on -/
def writesFrom (i : Nat) : List UInt8 → List (Nat × UInt8)
  | [] => []
  | c :: cs => (i, c) :: writesFrom (i + 1) cs

/-- The loops that keep the characters that are valid; `written` of them are there already. -/
def writeValid (start limit : Nat) : List UInt8 → Nat → List (Nat × UInt8)
  | [], _ => []
  | c :: cs, written =>
    if written < limit then
      if isValidSFNCharacter c then
        (start + written, toupper c) :: writeValid start limit cs (written + 1)
      else writeValid start limit cs written
    else []

/-- `GetShortFileExtension`, with `ext_out` at `start` -/
def getShortFileExtension (longExt : List UInt8) (start : Nat) : List (Nat × UInt8) :=
  -- `strcpy` stores the zero at the end as well.
  writesFrom start [32, 32, 32, 0] ++ writeValid start 3 longExt 0

/-- `GetShortFileMainName`, where `name` ends at the extension; it returns `name_written`. -/
def getShortFileMainName (name : List UInt8) : Nat × List (Nat × UInt8) :=
  let written := writeValid 0 8 name 0
  (written.length, writesFrom 0 (List.replicate 8 32) ++ written)

/-- The `char` that a number is stored as -/
def charOf (n : Int) : UInt8 := UInt8.ofNat (n % 256).toNat

/-- `set` -/
def hexDigit (n : Nat) : UInt8 :=
  [48, 49, 50, 51, 52, 53, 54, 55, 56, 57, 65, 66, 67, 68, 69, 70].getD (n &&& 15) 0

/-- `GetShortFilename`: what it returns, and its writes -/
def getShortFilename (lfn : List UInt8) (clashNum : Int) : Nat × List (Nat × UInt8) :=
  let longExtStart := getShortFileExtensionStart lfn
  let ext := getShortFileExtension (lfn.drop longExtStart) 8
  let (mainLen, main) := getShortFileMainName (lfn.take longExtStart)
  if mainLen = 0 then (einval, ext ++ main)
  else if clashNum = 0 then (0, ext ++ main)
  else if clashNum < 10 then
    let mainLen := if mainLen > 6 then 6 else mainLen
    (0, ext ++ main ++ writesFrom mainLen [126, charOf (clashNum + 48)])
  else if clashNum < 100 then
    let mainLen := if mainLen > 5 then 5 else mainLen
    (0, ext ++ main ++
      writesFrom mainLen [126, charOf (clashNum / 10 + 48), charOf (clashNum % 10 + 48)])
  else
    let mainLen := if mainLen > 3 then 3 else mainLen
    let val := (clashNum - 100).toNat
    (if val >>> 20 ≠ 0 then einval else 0, ext ++ main ++
      writesFrom mainLen [hexDigit val, hexDigit (val >>> 4), hexDigit (val >>> 8),
        hexDigit (val >>> 12), hexDigit (val >>> 16)])

/-- The memory at `sfn_out` after some writes -/
def stored (buf : Nat → UInt8) (writes : List (Nat × UInt8)) : Nat → UInt8 :=
  writes.foldl (fun buf w => Function.update buf w.1 w.2) buf

/-- `sfn_out[0..10]`, where `buf` was before -/
def sfnOut (lfn : List UInt8) (clashNum : Int) (buf : Nat → UInt8) : List UInt8 :=
  (List.range 11).map (stored buf (getShortFilename lfn clashNum).2)

/-! ## What it is for -/

/-- A character of a short name -/
def IsSfnChar (c : UInt8) : Prop := isValidSFNCharacter c = true ∧ toupper c = c

instance : DecidablePred IsSfnChar := fun _ => inferInstanceAs (Decidable (_ ∧ _))

/-- A field of `n` bytes, with spaces at its end -/
def pad (n : Nat) (s : List UInt8) : List UInt8 := s ++ List.replicate (n - s.length) 32

/-- The valid characters of a name, as a short name has them -/
def shortened (n : Nat) (s : List UInt8) : List UInt8 :=
  ((s.filter isValidSFNCharacter).map toupper).take n

/-- A name ends in its extension: a dot, and what has no other dot; or it has none at all. -/
def EndsInExtension (lfn ext : List UInt8) : Prop :=
  (46 ∉ lfn ∧ ext = []) ∨ (46 ∉ ext ∧ ∃ main, lfn = main ++ 46 :: ext)

/-- The bytes are an 8.3 name with the extension of a long one. -/
def WellFormed (lfn sfn : List UInt8) : Prop :=
  ∃ main ext longExt : List UInt8, sfn = pad 8 main ++ pad 3 ext ∧
    main ≠ [] ∧ main.length ≤ 8 ∧ (∀ c ∈ main, IsSfnChar c) ∧
    EndsInExtension lfn longExt ∧ ext = shortened 3 longExt ∧ ∀ c ∈ ext, IsSfnChar c

/-! ## Writes -/

theorem stored_append (buf : Nat → UInt8) (a b : List (Nat × UInt8)) :
    stored buf (a ++ b) = stored (stored buf a) b := List.foldl_append

theorem stored_writesFrom (buf : Nat → UInt8) (p : Nat) (s : List UInt8) (i : Nat) :
    stored buf (writesFrom p s) i =
      if p ≤ i ∧ i < p + s.length then s.getD (i - p) 32 else buf i := by
  induction s generalizing buf p with
  | nil => rw [if_neg (by simp)]; rfl
  | cons c cs ih =>
    have hs : stored buf (writesFrom p (c :: cs)) =
        stored (Function.update buf p c) (writesFrom (p + 1) cs) := rfl
    rw [hs, ih]
    by_cases h : p + 1 ≤ i ∧ i < p + 1 + cs.length
    · rw [if_pos h, if_pos (by simp only [List.length_cons]; omega)]
      rw [show i - p = i - (p + 1) + 1 by omega, List.getD_cons_succ]
    · rw [if_neg h]
      by_cases hi : i = p
      · subst hi
        rw [if_pos (by simp only [List.length_cons]; omega), Nat.sub_self, List.getD_cons_zero,
          Function.update_self]
      · rw [if_neg (by simp only [List.length_cons]; omega), Function.update_of_ne hi]

theorem stored_outside {buf : Nat → UInt8} {p : Nat} {s : List UInt8} {i : Nat}
    (h : i < p ∨ p + s.length ≤ i) : stored buf (writesFrom p s) i = buf i := by
  rw [stored_writesFrom, if_neg (by omega)]

theorem mem_writesFrom {p : Nat} {s : List UInt8} {w : Nat × UInt8} (h : w ∈ writesFrom p s) :
    w.1 < p + s.length := by
  induction s generalizing p with
  | nil => cases h
  | cons c cs ih =>
    rw [List.length_cons]
    rcases List.mem_cons.mp h with rfl | h
    · omega
    · have := ih h
      omega

theorem length_writesFrom (p : Nat) (s : List UInt8) : (writesFrom p s).length = s.length := by
  induction s generalizing p with
  | nil => rfl
  | cons c cs ih => rw [writesFrom, List.length_cons, List.length_cons, ih]

/-- The loop keeps the first valid characters. -/
theorem writeValid_eq (start limit : Nat) (cs : List UInt8) (written : Nat) :
    writeValid start limit cs written =
      writesFrom (start + written) (shortened (limit - written) cs) := by
  induction cs generalizing written with
  | nil => rw [writeValid, shortened, List.filter_nil, List.map_nil, List.take_nil, writesFrom]
  | cons c cs ih =>
    unfold writeValid shortened
    by_cases hl : written < limit
    · rw [if_pos hl]
      by_cases hc : isValidSFNCharacter c = true
      · rw [if_pos hc, ih, List.filter_cons_of_pos hc, List.map_cons,
          show limit - written = limit - (written + 1) + 1 by omega, List.take_succ_cons,
          writesFrom]
        rfl
      · rw [if_neg hc, ih, List.filter_cons_of_neg hc]
        rfl
    · rw [if_neg hl, show limit - written = 0 by omega, List.take_zero, writesFrom]

theorem length_shortened (n : Nat) (s : List UInt8) : (shortened n s).length ≤ n := by
  rw [shortened, List.length_take]
  exact Nat.min_le_left _ _

/-! ## The two parts -/

theorem afterLastDot_spec (cs : List UInt8) (i : Nat) (found : Option Nat) :
    (46 ∉ cs ∧ afterLastDot cs i found = found) ∨
      ∃ main ext, cs = main ++ 46 :: ext ∧ 46 ∉ ext ∧
        afterLastDot cs i found = some (i + main.length + 1) := by
  induction cs generalizing i found with
  | nil => exact .inl ⟨List.not_mem_nil, rfl⟩
  | cons c cs ih =>
    rw [afterLastDot]
    rcases ih (i + 1) (if c = 46 then some (i + 1) else found) with
      ⟨hn, he⟩ | ⟨main, ext, rfl, hext, he⟩
    · by_cases hc : c = 46
      · subst hc
        exact .inr ⟨[], cs, rfl, hn, he.trans (if_pos rfl)⟩
      · refine .inl ⟨?_, he.trans (if_neg hc)⟩
        rw [List.mem_cons, not_or]
        exact ⟨Ne.symm hc, hn⟩
    · refine .inr ⟨c :: main, ext, rfl, hext, he.trans ?_⟩
      rw [List.length_cons]
      congr 1
      omega

theorem extensionStart_spec (lfn : List UInt8) :
    EndsInExtension lfn (lfn.drop (getShortFileExtensionStart lfn)) := by
  unfold getShortFileExtensionStart
  rcases afterLastDot_spec lfn 0 none with ⟨hn, he⟩ | ⟨main, ext, rfl, hext, he⟩
  · rw [he, Option.getD_none, List.drop_length]
    exact .inl ⟨hn, rfl⟩
  · rw [he, Option.getD_some]
    have hd : (main ++ 46 :: ext).drop (0 + main.length + 1) = ext := by
      simp [List.drop_append]
    rw [hd]
    exact .inr ⟨hext, main, rfl⟩

/-- The main part of the short name, without a number -/
def plainMain (lfn : List UInt8) : List UInt8 :=
  shortened 8 (lfn.take (getShortFileExtensionStart lfn))

/-- The extension of the short name -/
def shortExt (lfn : List UInt8) : List UInt8 :=
  shortened 3 (lfn.drop (getShortFileExtensionStart lfn))

/-- The end of the main part that tells a number -/
def suffix (clashNum : Int) : List UInt8 :=
  if clashNum < 10 then [126, charOf (clashNum + 48)]
  else if clashNum < 100 then [126, charOf (clashNum / 10 + 48), charOf (clashNum % 10 + 48)]
  else
    let val := (clashNum - 100).toNat
    [hexDigit val, hexDigit (val >>> 4), hexDigit (val >>> 8), hexDigit (val >>> 12),
      hexDigit (val >>> 16)]

/-- The main part, from the plain one -/
def numbered (main : List UInt8) (clashNum : Int) : List UInt8 :=
  if clashNum = 0 then main else main.take (8 - (suffix clashNum).length) ++ suffix clashNum

theorem length_suffix (clashNum : Int) :
    (suffix clashNum).length = if clashNum < 10 then 2 else if clashNum < 100 then 3 else 5 := by
  unfold suffix
  split
  · rfl
  split <;> rfl

/-! ## The result -/

/-- `GetShortFilename`, from the two parts -/
theorem getShortFilename_writes (lfn : List UInt8) (clashNum : Int) :
    (getShortFilename lfn clashNum).2 =
      writesFrom 8 [32, 32, 32, 0] ++ writesFrom 8 (shortExt lfn) ++
        (writesFrom 0 (List.replicate 8 32) ++ writesFrom 0 (plainMain lfn)) ++
        if plainMain lfn = [] ∨ clashNum = 0 then []
        else writesFrom (min (plainMain lfn).length (8 - (suffix clashNum).length))
          (suffix clashNum) := by
  have hext : getShortFileExtension (lfn.drop (getShortFileExtensionStart lfn)) 8 =
      writesFrom 8 [32, 32, 32, 0] ++ writesFrom 8 (shortExt lfn) := by
    rw [getShortFileExtension, writeValid_eq]
    rfl
  have hmain : writeValid 0 8 (lfn.take (getShortFileExtensionStart lfn)) 0 =
      writesFrom 0 (plainMain lfn) := writeValid_eq 0 8 _ 0
  have hcut (n : Nat) : (if (plainMain lfn).length > n then n else (plainMain lfn).length) =
      min (plainMain lfn).length n := by
    split
    · omega
    · omega
  unfold getShortFilename getShortFileMainName
  simp only [hext, hmain, length_writesFrom, List.length_eq_zero_iff, hcut]
  by_cases h0 : plainMain lfn = []
  · rw [if_pos h0, if_pos (.inl h0), List.append_nil]
  rw [if_neg h0]
  by_cases hc : clashNum = 0
  · rw [if_pos hc, if_pos (.inr hc), List.append_nil]
  rw [if_neg hc, if_neg (not_or.mpr ⟨h0, hc⟩), length_suffix, suffix]
  by_cases h10 : clashNum < 10
  · simp only [if_pos h10]
  by_cases h100 : clashNum < 100
  · simp only [if_neg h10, if_pos h100]
  · simp only [if_neg h10, if_neg h100]

/-- The number fits into five hexadecimal digits. -/
def Fits (clashNum : Int) : Prop := clashNum - 100 < 1048576

theorem getShortFilename_status (lfn : List UInt8) (clashNum : Int) :
    (getShortFilename lfn clashNum).1 = 0 ↔ plainMain lfn ≠ [] ∧ Fits clashNum := by
  have hmain : writeValid 0 8 (lfn.take (getShortFileExtensionStart lfn)) 0 =
      writesFrom 0 (plainMain lfn) := writeValid_eq 0 8 _ 0
  have he : einval ≠ 0 := by decide
  unfold getShortFilename getShortFileMainName Fits
  simp only [hmain, length_writesFrom, List.length_eq_zero_iff]
  by_cases h0 : plainMain lfn = []
  · rw [if_pos h0]
    exact iff_of_false he fun h => h.1 h0
  rw [if_neg h0]
  split
  · exact iff_of_true rfl ⟨h0, by omega⟩
  split
  · exact iff_of_true rfl ⟨h0, by omega⟩
  split
  · exact iff_of_true rfl ⟨h0, by omega⟩
  · rw [Nat.shiftRight_eq_div_pow]
    split
    · next hv => exact iff_of_false he fun h => hv (by omega)
    · next hv => exact iff_of_true rfl ⟨h0, by omega⟩

/-- What `GetShortFilename` returns if it fails -/
theorem getShortFilename_error (lfn : List UInt8) (clashNum : Int)
    (h : (getShortFilename lfn clashNum).1 ≠ 0) : (getShortFilename lfn clashNum).1 = einval := by
  unfold getShortFilename at h ⊢
  simp only at h ⊢
  split
  · rfl
  rename_i h0
  rw [if_neg h0] at h
  split at h
  · exact absurd rfl h
  split at h
  · exact absurd rfl h
  split at h
  · exact absurd rfl h
  rename_i h1 h2 h3
  rw [if_neg h1, if_neg h2, if_neg h3]
  simp only at h ⊢
  split
  · rfl
  · next hv => exact absurd (if_neg hv) h

theorem pad_eq_map {n : Nat} {s : List UInt8} (h : s.length ≤ n) :
    pad n s = (List.range n).map fun i => s.getD i 32 := by
  refine List.ext_getElem ?_ fun i h1 h2 => ?_
  · simp only [pad, List.length_append, List.length_replicate, List.length_map, List.length_range]
    omega
  · simp only [pad, List.getElem_map, List.getElem_range, List.getElem_append,
      List.getElem_replicate]
    split
    · next hi => rw [List.getD_eq_getElem _ _ hi]
    · next hi => rw [List.getD_eq_default _ _ (Nat.le_of_not_lt hi)]

theorem length_numbered {main : List UInt8} (h : main.length ≤ 8) (clashNum : Int) :
    (numbered main clashNum).length ≤ 8 := by
  unfold numbered
  split
  · exact h
  · have hs := length_suffix clashNum
    rw [List.length_append, List.length_take]
    split at hs
    · omega
    split at hs <;> omega

theorem sfnOut_eq {lfn : List UInt8} (clashNum : Int) (buf : Nat → UInt8)
    (h : plainMain lfn ≠ []) :
    sfnOut lfn clashNum buf =
      pad 8 (numbered (plainMain lfn) clashNum) ++ pad 3 (shortExt lfn) := by
  have hM : (plainMain lfn).length ≤ 8 := length_shortened _ _
  have hE : (shortExt lfn).length ≤ 3 := length_shortened _ _
  have hS := length_suffix clashNum
  have hS8 : (suffix clashNum).length ≤ 8 := by
    split at hS
    · omega
    split at hS <;> omega
  rw [pad_eq_map (length_numbered hM clashNum), pad_eq_map hE]
  unfold sfnOut
  rw [show (11 : Nat) = 8 + 3 from rfl, List.range_add, List.map_append, List.map_map,
    getShortFilename_writes]
  congr 1
  · refine List.map_congr_left fun i hi => ?_
    rw [List.mem_range] at hi
    have hplain : stored buf (writesFrom 8 [32, 32, 32, 0] ++ writesFrom 8 (shortExt lfn) ++
        (writesFrom 0 (List.replicate 8 32) ++ writesFrom 0 (plainMain lfn))) i =
          (plainMain lfn).getD i 32 := by
      rw [stored_append, stored_append, stored_writesFrom]
      by_cases hm : i < (plainMain lfn).length
      · rw [if_pos (by omega), Nat.sub_zero]
      · rw [if_neg (by omega), stored_writesFrom, if_pos (by simp; omega),
          List.getD_eq_default _ _ (Nat.le_of_not_lt hm), Nat.sub_zero]
        rw [List.getD_eq_getElem _ _ (by simpa using hi), List.getElem_replicate]
    unfold numbered
    by_cases hc : clashNum = 0
    · rw [if_pos (.inr hc), if_pos hc, List.append_nil, hplain]
    · rw [if_neg (not_or.mpr ⟨h, hc⟩), if_neg hc, stored_append,
        stored_writesFrom]
      split
      · next hk =>
        rw [List.getD_append_right _ _ _ _ (by rw [List.length_take]; omega), List.length_take,
          Nat.min_comm]
      · next hk =>
        rw [hplain]
        by_cases hlt : i < min (plainMain lfn).length (8 - (suffix clashNum).length)
        · rw [List.getD_append _ _ _ _ (by rw [List.length_take]; omega)]
          rw [List.getD_eq_getElem _ _ (by omega),
            List.getD_eq_getElem _ _ (by rw [List.length_take]; omega), List.getElem_take]
        · rw [List.getD_eq_default _ _ (by omega), List.getD_eq_default]
          rw [List.length_append, List.length_take]
          omega
  · refine List.map_congr_left fun i hi => ?_
    rw [List.mem_range] at hi
    have hrest (buf : Nat → UInt8) : stored buf (if plainMain lfn = [] ∨ clashNum = 0 then []
        else writesFrom (min (plainMain lfn).length (8 - (suffix clashNum).length))
          (suffix clashNum)) (8 + i) = buf (8 + i) := by
      split
      · rfl
      · exact stored_outside (by omega)
    simp only [Function.comp]
    rw [stored_append, hrest, stored_append, stored_append, stored_outside (.inr (by omega)),
      stored_outside (.inr (by simp)), stored_append, stored_writesFrom]
    by_cases hlt : i < (shortExt lfn).length
    · rw [if_pos (by omega), Nat.add_sub_cancel_left]
    · rw [if_neg (by omega), stored_writesFrom, if_pos (by simp; omega),
        List.getD_eq_default _ _ (Nat.le_of_not_lt hlt), Nat.add_sub_cancel_left]
      match i, hi with
      | 0, _ | 1, _ | 2, _ => rfl

/-! ## Characters -/

theorem isSfnChar_toupper : ∀ c : UInt8, isValidSFNCharacter c = true → IsSfnChar (toupper c) := by
  intro c hc
  have hall : ∀ n < 256, isValidSFNCharacter (UInt8.ofNat n) = true →
      IsSfnChar (toupper (UInt8.ofNat n)) := by decide +kernel
  have := hall c.toNat c.toNat_lt
  rw [UInt8.ofNat_toNat] at this
  exact this hc

theorem isSfnChar_of_mem_shortened {n : Nat} {s : List UInt8} {c : UInt8}
    (h : c ∈ shortened n s) : IsSfnChar c := by
  obtain ⟨d, hd, rfl⟩ := List.mem_map.mp (List.mem_of_mem_take h)
  exact isSfnChar_toupper d (List.mem_filter.mp hd).2

/-- A digit is what the loops of `GetShortFilename` make of a number below ten. -/
theorem charOf_digit : ∀ d < 10, IsSfnChar (charOf ((d : Nat) + 48)) ∧
    charOf ((d : Nat) + 48) ≠ 126 ∧ charOf ((d : Nat) + 48) ≠ 32 := by decide

theorem hexDigit_mod (n : Nat) : hexDigit n = hexDigit (n % 16) := by
  unfold hexDigit
  rw [show (15 : Nat) = 2 ^ 4 - 1 from rfl, Nat.and_two_pow_sub_one_eq_mod,
    Nat.and_two_pow_sub_one_eq_mod, Nat.mod_mod]

theorem isSfnChar_hexDigit (n : Nat) :
    IsSfnChar (hexDigit n) ∧ hexDigit n ≠ 126 ∧ hexDigit n ≠ 32 := by
  have hall : ∀ d < 16, IsSfnChar (hexDigit d) ∧ hexDigit d ≠ 126 ∧ hexDigit d ≠ 32 := by decide
  rw [hexDigit_mod]
  exact hall _ (Nat.mod_lt _ (by decide))

theorem hexDigit_inj {m n : Nat} (h : hexDigit m = hexDigit n) : m % 16 = n % 16 := by
  have hall : ∀ a < 16, ∀ b < 16, hexDigit a = hexDigit b → a = b := by decide
  rw [hexDigit_mod m, hexDigit_mod n] at h
  exact hall _ (Nat.mod_lt _ (by decide)) _ (Nat.mod_lt _ (by decide)) h

theorem charOf_eq_iff {m n : Int} : charOf (m + 48) = charOf (n + 48) ↔ m % 256 = n % 256 := by
  unfold charOf
  constructor
  · intro h
    have ht := congrArg UInt8.toNat h
    rw [UInt8.toNat_ofNat', UInt8.toNat_ofNat'] at ht
    omega
  · intro h
    congr 2
    omega

/-! ## Fields -/

theorem length_pad {n : Nat} {s : List UInt8} (h : s.length ≤ n) : (pad n s).length = n := by
  rw [pad, List.length_append, List.length_replicate]
  omega

/-- A space at the end is not seen. -/
theorem pad_space {n : Nat} {s : List UInt8} (h : s.length < n) : pad n (s ++ [32]) = pad n s := by
  unfold pad
  rw [List.length_append, List.length_singleton, List.append_assoc,
    show n - s.length = n - (s.length + 1) + 1 by omega, List.replicate_succ]
  rfl

theorem getD_pad (n : Nat) (s : List UInt8) (i : Nat) : (pad n s).getD i 32 = s.getD i 32 := by
  unfold pad
  by_cases h : i < s.length
  · rw [List.getD_append _ _ _ _ h]
  · rw [List.getD_append_right _ _ _ _ (Nat.le_of_not_lt h),
      List.getD_eq_default s _ (Nat.le_of_not_lt h), List.getD_eq_getElem?_getD,
      List.getElem?_getD_replicate_default_eq]

theorem mem_pad {n : Nat} {s : List UInt8} {c : UInt8} (h : c ∈ pad n s) : c ∈ s ∨ c = 32 := by
  rcases List.mem_append.mp h with h | h
  · exact .inl h
  · exact .inr (List.eq_of_mem_replicate h)

/-- The fields of a name are told apart by their lengths. -/
theorem fields_inj {a b c d : List UInt8} (ha : a.length ≤ 8) (hb : b.length ≤ 8)
    (h : pad 8 a ++ pad 3 c = pad 8 b ++ pad 3 d) : pad 8 a = pad 8 b :=
  (List.append_inj h ((length_pad ha).trans (length_pad hb).symm)).1

/-! ## Well-formed names -/

theorem isSfnChar_suffix {clashNum : Int} (h : 0 ≤ clashNum) :
    ∀ c ∈ suffix clashNum, IsSfnChar c := by
  obtain ⟨n, rfl⟩ := Int.eq_ofNat_of_zero_le h
  have htilde : IsSfnChar 126 := by decide
  unfold suffix
  split
  · have hd := (charOf_digit n (by omega)).1
    simp only [List.forall_mem_cons]
    exact ⟨htilde, hd, fun _ hc => absurd hc List.not_mem_nil⟩
  split
  · have hd := (charOf_digit (n / 10) (by omega)).1
    have hm := (charOf_digit (n % 10) (by omega)).1
    simp only [List.forall_mem_cons]
    exact ⟨htilde, hd, hm, fun _ hc => absurd hc List.not_mem_nil⟩
  · simp only [List.forall_mem_cons]
    exact ⟨(isSfnChar_hexDigit _).1, (isSfnChar_hexDigit _).1, (isSfnChar_hexDigit _).1,
      (isSfnChar_hexDigit _).1, (isSfnChar_hexDigit _).1, fun _ hc => absurd hc List.not_mem_nil⟩

theorem suffix_small {clashNum : Int} (h : clashNum < 10) :
    suffix clashNum = [126, charOf (clashNum + 48)] := if_pos h

/-- A name is well formed if its main part is, up to spaces at the end. -/
theorem wellFormed_of {lfn main : List UInt8} {clashNum : Int} (buf : Nat → UInt8)
    (h : plainMain lfn ≠ []) (hpad : pad 8 (numbered (plainMain lfn) clashNum) = pad 8 main)
    (hne : main ≠ []) (hlen : main.length ≤ 8) (hmain : ∀ c ∈ main, IsSfnChar c) :
    WellFormed lfn (sfnOut lfn clashNum buf) :=
  ⟨main, shortExt lfn, _, by rw [sfnOut_eq clashNum buf h, hpad], hne, hlen, hmain,
    extensionStart_spec lfn, rfl, fun _ hc => isSfnChar_of_mem_shortened hc⟩

/-- The last character of the main part can be the one that a negative number ends with. -/
def EndsWell (clashNum : Int) : Prop :=
  0 ≤ clashNum ∨ IsSfnChar (charOf (clashNum + 48)) ∨ charOf (clashNum + 48) = 32

theorem wellFormed_iff {lfn : List UInt8} (clashNum : Int) (buf : Nat → UInt8)
    (h : plainMain lfn ≠ []) :
    WellFormed lfn (sfnOut lfn clashNum buf) ↔ EndsWell clashNum := by
  have hM : (plainMain lfn).length ≤ 8 := length_shortened _ _
  have hMc : ∀ c ∈ plainMain lfn, IsSfnChar c := fun _ hc => isSfnChar_of_mem_shortened hc
  have hlen := length_numbered hM clashNum
  constructor
  · rintro ⟨main, ext, -, hs, -, hml, hmc, -⟩
    by_cases h0 : 0 ≤ clashNum
    · exact .inl h0
    rw [sfnOut_eq clashNum buf h] at hs
    have hp := fields_inj hlen hml hs
    have hc : charOf (clashNum + 48) ∈ pad 8 (numbered (plainMain lfn) clashNum) := by
      rw [numbered, if_neg (by omega), suffix_small (by omega), pad]
      simp
    rw [hp] at hc
    rcases mem_pad hc with hc | hc
    · exact .inr (.inl (hmc _ hc))
    · exact .inr (.inr hc)
  · intro hw
    by_cases h0 : clashNum = 0
    · exact wellFormed_of buf h (by rw [numbered, if_pos h0]) h hM hMc
    have hnum : numbered (plainMain lfn) clashNum =
        (plainMain lfn).take (8 - (suffix clashNum).length) ++ suffix clashNum := if_neg h0
    have hplain (s : List UInt8) (hs : ∀ c ∈ s, IsSfnChar c) (n : Nat) :
        ∀ c ∈ (plainMain lfn).take n ++ s, IsSfnChar c := by
      intro c hc
      rcases List.mem_append.mp hc with hc | hc
      · exact hMc c (List.mem_of_mem_take hc)
      · exact hs c hc
    have hne : suffix clashNum ≠ [] := by
      have hl := length_suffix clashNum
      rw [← List.length_pos_iff, hl]
      split
      · decide
      split <;> decide
    by_cases hsuf : ∀ c ∈ suffix clashNum, IsSfnChar c
    · refine wellFormed_of buf h rfl ?_ hlen ?_
      · rw [hnum]
        exact List.append_ne_nil_of_right_ne_nil _ hne
      · rw [hnum]
        exact hplain _ hsuf _
    · -- Only a negative number that ends in a space is left.
      have hneg : ¬0 ≤ clashNum := fun h0 => hsuf (isSfnChar_suffix h0)
      rw [suffix_small (by omega)] at hsuf hnum
      have h32 : charOf (clashNum + 48) = 32 := by
        rcases hw with hw | hw | hw
        · exact absurd hw hneg
        · refine absurd ?_ hsuf
          simp only [List.forall_mem_cons]
          exact ⟨by decide, hw, fun _ hc => absurd hc List.not_mem_nil⟩
        · exact hw
      refine @wellFormed_of lfn ((plainMain lfn).take 6 ++ [126]) clashNum buf h ?_ (by simp) ?_ ?_
      · rw [hnum, h32]
        refine Eq.trans ?_ (pad_space ?_)
        · rw [List.append_assoc]
          rfl
        · rw [List.length_append, List.length_take, List.length_singleton]
          omega
      · rw [List.length_append, List.length_take, List.length_singleton]
        omega
      · exact hplain _ (List.forall_mem_singleton.mpr (by decide)) 6

/--
**A short name always takes the byte after it with it.**

Leaving that byte aside, the name is well formed but for some of the negative numbers.
-/
theorem short_name_overruns (lfn : List UInt8) (clashNum : Int) (buf : Nat → UInt8) :
    ¬(((getShortFilename lfn clashNum).1 = einval ∨ WellFormed lfn (sfnOut lfn clashNum buf)) ∧
        ∀ w ∈ (getShortFilename lfn clashNum).2, w.1 ≤ 10) ∧
      (∀ w ∈ (getShortFilename lfn clashNum).2, w.1 ≤ 11) ∧
      (((getShortFilename lfn clashNum).1 = einval ∨ WellFormed lfn (sfnOut lfn clashNum buf)) ↔
        (getShortFilename lfn clashNum).1 = einval ∨ EndsWell clashNum) := by
  have hM : (plainMain lfn).length ≤ 8 := length_shortened _ _
  have hE : (shortExt lfn).length ≤ 3 := length_shortened _ _
  refine ⟨fun hc => ?_, ?_, ?_⟩
  · have hmem : (11, 0) ∈ (getShortFilename lfn clashNum).2 := by
      rw [getShortFilename_writes]
      simp [writesFrom]
    exact absurd (hc.2 _ hmem) (by decide)
  · intro w hw
    rw [getShortFilename_writes] at hw
    rcases List.mem_append.mp hw with hw | hw
    · rcases List.mem_append.mp hw with hw | hw
      · rcases List.mem_append.mp hw with hw | hw
        · have := mem_writesFrom hw
          simp only [List.length_cons, List.length_nil] at this
          omega
        · have := mem_writesFrom hw
          omega
      · rcases List.mem_append.mp hw with hw | hw
        · have := mem_writesFrom hw
          simp only [List.length_replicate] at this
          omega
        · have := mem_writesFrom hw
          omega
    · split at hw
      · cases hw
      · have hl := mem_writesFrom hw
        have hS := length_suffix clashNum
        split at hS
        · omega
        split at hS <;> omega
  · refine or_congr_right' fun hs => wellFormed_iff clashNum buf ?_
    have h0 : (getShortFilename lfn clashNum).1 = 0 := by
      by_contra hne
      exact hs (getShortFilename_error lfn clashNum hne)
    exact ((getShortFilename_status lfn clashNum).mp h0).1

/-- The byte after the name is cleared: `file.txt`. -/
theorem short_name_byte11 :
    (getShortFilename [102, 105, 108, 101, 46, 116, 120, 116] 0).1 = 0 ∧
      stored (fun _ => 127) (getShortFilename [102, 105, 108, 101, 46, 116, 120, 116] 0).2 11 = 0 ∧
      ¬∀ w ∈ (getShortFilename [102, 105, 108, 101, 46, 116, 120, 116] 0).2, w.1 ≤ 10 := by
  decide +kernel

/-! ## Names with different numbers -/

theorem getD_numbered (main : List UInt8) {clashNum : Int} (h : clashNum ≠ 0) (i : Nat) :
    (numbered main clashNum).getD i 32 =
      let start := min main.length (8 - (suffix clashNum).length)
      if i < start then main.getD i 32 else (suffix clashNum).getD (i - start) 32 := by
  have hl : (main.take (8 - (suffix clashNum).length)).length =
      min main.length (8 - (suffix clashNum).length) := by rw [List.length_take, Nat.min_comm]
  rw [numbered, if_neg h]
  simp only
  split
  · rw [List.getD_append _ _ _ _ (by omega), List.getD_eq_getElem _ _ (by omega),
      List.getD_eq_getElem _ _ (by omega), List.getElem_take]
  · rw [List.getD_append_right _ _ _ _ (by omega), hl]

theorem getD_of_pad {s t : List UInt8} (h : pad 8 s = pad 8 t) (i : Nat) :
    s.getD i 32 = t.getD i 32 := by
  rw [← getD_pad 8 s, ← getD_pad 8 t, h]

theorem suffix_two {n : Int} (h10 : ¬n < 10) (h100 : n < 100) :
    suffix n = [126, charOf (n / 10 + 48), charOf (n % 10 + 48)] := by
  rw [suffix, if_neg h10, if_pos h100]

theorem suffix_hex {n : Int} (h100 : ¬n < 100) :
    suffix n = [hexDigit (n - 100).toNat, hexDigit ((n - 100).toNat >>> 4),
      hexDigit ((n - 100).toNat >>> 8), hexDigit ((n - 100).toNat >>> 12),
      hexDigit ((n - 100).toNat >>> 16)] := by
  rw [suffix, if_neg (by omega), if_neg h100]

/-- No character of a hexadecimal number is a tilde. -/
theorem getD_suffix_hex {n : Int} (h100 : ¬n < 100) {i : Nat} (hi : i < 5) :
    (suffix n).getD i 32 ≠ 126 := by
  rw [suffix_hex h100]
  match i, hi with
  | 0, _ | 1, _ | 2, _ | 3, _ | 4, _ => exact (isSfnChar_hexDigit _).2.1

theorem tilde_suffix {n : Int} (h100 : n < 100) : (suffix n).getD 0 32 = 126 := by
  unfold suffix
  split <;> rfl

/-- A number in hexadecimal and another one: the tilde shows which is which. -/
theorem tilde_ne_hex (main : List UInt8) {a b : Int} (ha : a ≠ 0) (ha100 : a < 100)
    (hb100 : ¬b < 100) : pad 8 (numbered main a) ≠ pad 8 (numbered main b) := by
  intro h
  have hla : 2 ≤ (suffix a).length ∧ (suffix a).length ≤ 3 := by
    rw [length_suffix, if_pos ha100]
    split <;> decide
  have hlb := length_suffix b
  rw [if_neg (by omega), if_neg hb100] at hlb
  have hi := getD_of_pad h (min main.length (8 - (suffix a).length))
  rw [getD_numbered main ha, getD_numbered main (by omega)] at hi
  simp only [Nat.lt_irrefl, if_false, Nat.sub_self, hlb] at hi
  rw [tilde_suffix ha100] at hi
  rw [if_neg (by omega)] at hi
  exact getD_suffix_hex hb100 (by omega) hi.symm

/-- A number with one digit and one with two -/
theorem one_ne_two (main : List UInt8) {a b : Int} (ha : a ≠ 0) (ha10 : a < 10)
    (hb10 : ¬b < 10) (hb100 : b < 100) :
    pad 8 (numbered main a) ≠ pad 8 (numbered main b) := by
  intro h
  obtain ⟨n, rfl⟩ := Int.eq_ofNat_of_zero_le (show 0 ≤ b by omega)
  have htens := charOf_digit (n / 10) (by omega)
  have hones := charOf_digit (n % 10) (by omega)
  have hi (i : Nat) := getD_of_pad h i
  simp only [getD_numbered main ha, getD_numbered main (show (n : Int) ≠ 0 by omega),
    suffix_small ha10, suffix_two hb10 hb100, List.length_cons, List.length_nil] at hi
  by_cases hm : main.length ≤ 5
  · have h2 := hi (main.length + 2)
    rw [show min main.length (8 - (0 + 1 + 1)) = main.length by omega,
      show min main.length (8 - (0 + 1 + 1 + 1)) = main.length by omega, if_neg (by omega),
      if_neg (by omega), Nat.add_sub_cancel_left] at h2
    exact hones.2.2 h2.symm
  · have h6 := hi 6
    rw [show min main.length (8 - (0 + 1 + 1)) = 6 by omega,
      show min main.length (8 - (0 + 1 + 1 + 1)) = 5 by omega, if_neg (by omega),
      if_neg (by omega)] at h6
    exact htens.2.1 h6.symm

/-- Numbers of the same kind are told apart by what is written for them. -/
theorem pad_numbered_inj (main : List UInt8) {a b : Int} (ha : a ≠ 0) (hb : b ≠ 0)
    (hl : (suffix a).length = (suffix b).length) :
    pad 8 (numbered main a) = pad 8 (numbered main b) ↔ suffix a = suffix b := by
  constructor
  · intro h
    rw [numbered, if_neg ha, numbered, if_neg hb, hl, pad, pad, List.append_assoc,
      List.append_assoc] at h
    exact (List.append_inj (List.append_cancel_left h) hl).1
  · intro h
    rw [numbered, if_neg ha, numbered, if_neg hb, h]

theorem suffix_inj_two {a b : Int} (ha : ¬a < 10) (ha' : a < 100) (hb : ¬b < 10) (hb' : b < 100)
    (h : suffix a = suffix b) : a = b := by
  rw [suffix_two ha ha', suffix_two hb hb'] at h
  simp only [List.cons.injEq, and_true, true_and, charOf_eq_iff] at h
  omega

theorem suffix_inj_hex {a b : Int} (ha : ¬a < 100) (hb : ¬b < 100) (hfa : Fits a) (hfb : Fits b)
    (h : suffix a = suffix b) : a = b := by
  unfold Fits at hfa hfb
  rw [suffix_hex ha, suffix_hex hb] at h
  simp only [List.cons.injEq, and_true] at h
  obtain ⟨h0, h1, h2, h3, h4⟩ := h
  have e0 := hexDigit_inj h0
  have e1 := hexDigit_inj h1
  have e2 := hexDigit_inj h2
  have e3 := hexDigit_inj h3
  have e4 := hexDigit_inj h4
  simp only [Nat.shiftRight_eq_div_pow] at e1 e2 e3 e4
  omega

/-- A number may be there already, as the end of the name itself. -/
theorem plain_eq_iff {main : List UInt8} (hm : main.length ≤ 8) {b : Int} (hb : b ≠ 0) :
    pad 8 main = pad 8 (numbered main b) ↔ suffix b <:+ pad 8 main := by
  have hlb := length_suffix b
  have hl8 : 2 ≤ (suffix b).length ∧ (suffix b).length ≤ 5 := by
    split at hlb
    · omega
    split at hlb <;> omega
  have hhead : (suffix b).getD 0 32 ≠ 32 := by
    by_cases h100 : b < 100
    · rw [tilde_suffix h100]
      decide
    · rw [suffix_hex h100]
      exact (isSfnChar_hexDigit _).2.2
  have hfull (hle : 8 - (suffix b).length ≤ main.length) :
      pad 8 (numbered main b) = main.take (8 - (suffix b).length) ++ suffix b := by
    rw [numbered, if_neg hb, pad, List.length_append, List.length_take,
      show 8 - (min (8 - (suffix b).length) main.length + (suffix b).length) = 0 by omega,
      List.replicate_zero, List.append_nil]
  constructor
  · intro h
    have hle : 8 - (suffix b).length ≤ main.length := by
      by_contra hlt
      have hi := getD_of_pad h main.length
      rw [getD_numbered main hb, List.getD_eq_default _ _ (Nat.le_refl _)] at hi
      simp only at hi
      rw [show min main.length (8 - (suffix b).length) = main.length by omega,
        if_neg (Nat.lt_irrefl _), Nat.sub_self] at hi
      exact hhead hi.symm
    rw [h, hfull hle]
    exact List.suffix_append _ _
  · rintro ⟨t, ht⟩
    have htl : t.length = 8 - (suffix b).length := by
      have := congrArg List.length ht
      rw [List.length_append, length_pad hm] at this
      omega
    have hle : 8 - (suffix b).length ≤ main.length := by
      by_contra hlt
      have hi := congrArg (fun s => s.getD t.length 32) ht
      simp only [getD_pad] at hi
      rw [List.getD_append_right _ _ _ _ (Nat.le_refl _), Nat.sub_self,
        List.getD_eq_default main _ (by omega)] at hi
      exact hhead hi
    have htake : t = main.take (8 - (suffix b).length) := by
      have := congrArg (List.take t.length) ht
      rw [List.take_left, pad, List.take_append_of_le_length (by omega), htl] at this
      exact this
    rw [hfull hle, ← ht, htake]

/-- The name with one number is the name with the other. -/
def SameName (lfn : List UInt8) (a b : Int) : Prop :=
  (a ≠ 0 ∧ b ≠ 0 ∧ a < 10 ∧ b < 10 ∧ a % 256 = b % 256) ∨
    (a = 0 ∧ suffix b <:+ pad 8 (plainMain lfn)) ∨ (b = 0 ∧ suffix a <:+ pad 8 (plainMain lfn))

theorem numbered_eq_iff {main : List UInt8} {a b : Int} (ha : a ≠ 0) (hb : b ≠ 0) (hab : a ≠ b)
    (hfa : Fits a) (hfb : Fits b) :
    pad 8 (numbered main a) = pad 8 (numbered main b) ↔ a < 10 ∧ b < 10 ∧ a % 256 = b % 256 := by
  by_cases ha10 : a < 10
  · by_cases hb10 : b < 10
    · rw [pad_numbered_inj main ha hb (by rw [suffix_small ha10, suffix_small hb10]; rfl),
        suffix_small ha10, suffix_small hb10]
      simp only [List.cons.injEq, and_true, true_and, charOf_eq_iff, ha10, hb10]
    refine iff_of_false ?_ fun h => hb10 h.2.1
    by_cases hb100 : b < 100
    · exact one_ne_two main ha ha10 hb10 hb100
    · exact tilde_ne_hex main ha (by omega) hb100
  refine iff_of_false ?_ fun h => ha10 h.1
  by_cases ha100 : a < 100
  · by_cases hb10 : b < 10
    · exact (one_ne_two main hb hb10 ha10 ha100).symm
    by_cases hb100 : b < 100
    · rw [pad_numbered_inj main ha hb (by rw [suffix_two ha10 ha100, suffix_two hb10 hb100]; rfl)]
      exact fun h => hab (suffix_inj_two ha10 ha100 hb10 hb100 h)
    · exact tilde_ne_hex main ha ha100 hb100
  · by_cases hb100 : b < 100
    · exact (tilde_ne_hex main hb hb100 ha100).symm
    · rw [pad_numbered_inj main ha hb (by rw [suffix_hex ha100, suffix_hex hb100]; rfl)]
      exact fun h => hab (suffix_inj_hex ha100 hb100 hfa hfb h)

theorem sameName_iff {lfn : List UInt8} {a b : Int} (buf : Nat → UInt8) (hab : a ≠ b)
    (ha : (getShortFilename lfn a).1 = 0) (hb : (getShortFilename lfn b).1 = 0) :
    sfnOut lfn a buf = sfnOut lfn b buf ↔ SameName lfn a b := by
  obtain ⟨hne, hfa⟩ := (getShortFilename_status lfn a).mp ha
  obtain ⟨-, hfb⟩ := (getShortFilename_status lfn b).mp hb
  have hM : (plainMain lfn).length ≤ 8 := length_shortened _ _
  have hfields : sfnOut lfn a buf = sfnOut lfn b buf ↔
      pad 8 (numbered (plainMain lfn) a) = pad 8 (numbered (plainMain lfn) b) := by
    rw [sfnOut_eq a buf hne, sfnOut_eq b buf hne]
    exact ⟨fields_inj (length_numbered hM a) (length_numbered hM b), fun h => by rw [h]⟩
  have hzero : numbered (plainMain lfn) 0 = plainMain lfn := if_pos rfl
  rw [hfields]
  unfold SameName
  by_cases ha0 : a = 0
  · subst ha0
    rw [hzero, plain_eq_iff hM hab.symm]
    simp [hab.symm]
  by_cases hb0 : b = 0
  · subst hb0
    rw [hzero, eq_comm, plain_eq_iff hM ha0]
    simp [ha0]
  · rw [numbered_eq_iff ha0 hb0 hab hfa hfb]
    simp [ha0, hb0]

/-! ## The search for a name -/

/-- Among `taken.card + 1` numbers, counted up from zero, one gives a name that is not taken. -/
def SearchSucceeds (lfn : List UInt8) (buf : Nat → UInt8) : Prop :=
  ∀ taken : Finset (List UInt8), (getShortFilename lfn taken.card).1 = 0 →
    ∃ n ≤ taken.card, sfnOut lfn n buf ∉ taken

theorem status_mono {lfn : List UInt8} {m n : Nat} (h : m ≤ n)
    (hn : (getShortFilename lfn n).1 = 0) : (getShortFilename lfn m).1 = 0 := by
  rw [getShortFilename_status] at hn ⊢
  exact ⟨hn.1, by have := hn.2; unfold Fits at *; omega⟩

theorem searchSucceeds_iff (lfn : List UInt8) (buf : Nat → UInt8) :
    SearchSucceeds lfn buf ↔ ∀ b : Nat, 0 < b → (getShortFilename lfn b).1 = 0 →
      ¬suffix b <:+ pad 8 (plainMain lfn) := by
  constructor
  · intro hs b hb hok hsuf
    -- The names before `b` are taken, and `b` gives the first of them again.
    have hcard : ((Finset.range b).image fun n : Nat => sfnOut lfn n buf).card ≤ b :=
      Finset.card_image_le.trans (Finset.card_range b).le
    obtain ⟨n, hn, hfree⟩ := hs _ (status_mono hcard hok)
    refine hfree (Finset.mem_image.mpr ?_)
    rcases Nat.lt_or_eq_of_le (hn.trans hcard) with hlt | rfl
    · exact ⟨n, Finset.mem_range.mpr hlt, rfl⟩
    · refine ⟨0, Finset.mem_range.mpr hb, ?_⟩
      exact (sameName_iff buf (by omega) (status_mono (Nat.zero_le n) hok) hok).mpr
        (.inr (.inl ⟨rfl, hsuf⟩))
  · intro hs taken hok
    by_contra hall
    push Not at hall
    have hinj : Set.InjOn (fun n : Nat => sfnOut lfn n buf) (Finset.range (taken.card + 1)) := by
      intro a ha b hb hab
      rw [Finset.coe_range, Set.mem_Iio] at ha hb
      by_contra hne
      have hoka := status_mono (show a ≤ taken.card by omega) hok
      have hokb := status_mono (show b ≤ taken.card by omega) hok
      rcases (sameName_iff buf (by omega) hoka hokb).mp hab with h | ⟨h0, h⟩ | ⟨h0, h⟩
      · omega
      · exact hs b (by omega) hokb h
      · exact hs a (by omega) hoka h
    have hsub : (Finset.range (taken.card + 1)).image (fun n : Nat => sfnOut lfn n buf) ⊆
        taken := by
      intro name hname
      obtain ⟨n, hn, rfl⟩ := Finset.mem_image.mp hname
      exact hall n (by have := Finset.mem_range.mp hn; omega)
    have hle := Finset.card_le_card hsub
    rw [Finset.card_image_of_injOn hinj, Finset.card_range] at hle
    omega

/--
**Two numbers give two names unless one of them is negative or the name ends in a number itself.**

The search for a free name takes no more steps than there are names that are taken, but for the
names of the second kind.
-/
theorem clash_names_iff (lfn : List UInt8) (buf : Nat → UInt8) :
    (∀ a b : Int, a ≠ b → (getShortFilename lfn a).1 = 0 → (getShortFilename lfn b).1 = 0 →
        (sfnOut lfn a buf ≠ sfnOut lfn b buf ↔ ¬SameName lfn a b)) ∧
      (SearchSucceeds lfn buf ↔ ∀ b : Nat, 0 < b → (getShortFilename lfn b).1 = 0 →
        ¬suffix b <:+ pad 8 (plainMain lfn)) :=
  ⟨fun _ _ hab ha hb => not_congr (sameName_iff buf hab ha hb), searchSucceeds_iff lfn buf⟩

/-- The numbers 0 and 1 of `abcdef~1` give the same name. -/
theorem clash_names_meet :
    let lfn : List UInt8 := [97, 98, 99, 100, 101, 102, 126, 49]
    (getShortFilename lfn 0).1 = 0 ∧ (getShortFilename lfn 1).1 = 0 ∧
      sfnOut lfn 0 (fun _ => 127) = sfnOut lfn 1 (fun _ => 127) := by
  decide +kernel

end Nolrem.Fs.ShortName
