import Mathlib.Data.List.Induction
import Mathlib.Tactic.Common
import Nolrem.Lib.FindIdx

/-!
# Lists of symbols

`kernel/dynlib/symlist.c`. A slot is one 64-bit word that is meant to hold either a hash, shifted
up by one, or the address of a string. The width of `size_t` is a parameter.
-/

namespace Nolrem.Dynlib

open Nolrem.Lib

/-! ## The code -/

/-- The two widths of `size_t`. -/
inductive SizeT where
  | bits32
  | bits64
deriving DecidableEq, Repr

/-- One more than `SIZE_MAX`. -/
def SizeT.size : SizeT → Nat
  | .bits32 => 4294967296
  | .bits64 => 18446744073709551616

/-- The characters of a C string, without the zero at its end. -/
abbrev Name := List Nat

/-- `struct symbol` -/
structure Sym where
  hashOrStr : Nat
  addr : Nat
deriving DecidableEq, Repr

/-- `struct symbol_list` -/
structure SymbolList where
  num : Nat
  syms : List Sym
deriving DecidableEq, Repr

/-- `IS_HASH` -/
def isHash (sv : Nat) : Bool := sv % 2 == 0

/-- `GET_PTR` -/
def getPtr (z : SizeT) (sv : Nat) : Nat := (sv - sv % 2) % z.size

/-- `GET_HASH` -/
def getHash (sv : Nat) : Nat := sv / 2

/-- `HashSymbol`: FNV-1a in 64 bits, with the top bit cleared. -/
def hashSymbol (id : Name) : Nat :=
  let hash := id.foldl (fun hash c => (hash ^^^ c) * 1099511628211 % 18446744073709551616)
    14695981039346656037
  hash % 9223372036854775808

/-- `IsMatchingSymbol`; `strAt` is the string at an address. -/
def isMatchingSymbol (z : SizeT) (strAt : Nat → Name) (id : Name) (sym : Sym) : Bool :=
  if isHash sym.hashOrStr then hashSymbol id == getHash sym.hashOrStr
  else id == strAt (getPtr z sym.hashOrStr)

/-- `CreateSymbolList` -/
def createSymbolList (z : SizeT) (total : Nat) : SymbolList where
  num := total
  syms := List.replicate total
    { hashOrStr := 0x7777777777777777, addr := 0x7777777777777777 % z.size }

/-- `MakeSymbol`, whose result is a `size_t`; `str` is the address that `KeStrdup` gives. -/
def makeSymbol (z : SizeT) (id : Name) (useHash : Bool) (str : Nat) : Nat :=
  if useHash then 2 * hashSymbol id % 18446744073709551616 % z.size else str

/-- `AddToSymbolListPreHashed` -/
def SymbolList.addPreHashed (sl : SymbolList) (index hash addr : Nat) : SymbolList :=
  { sl with syms := sl.syms.set index { hashOrStr := 2 * hash % 18446744073709551616, addr } }

/-- `AddToSymbolList` -/
def SymbolList.add (z : SizeT) (sl : SymbolList) (index : Nat) (id : Name) (useHash : Bool)
    (str addr : Nat) : SymbolList :=
  { sl with syms := sl.syms.set index { hashOrStr := makeSymbol z id useHash str, addr } }

/-- The loop of `FindSymbol`, from slot `i` on. -/
def findFrom (z : SizeT) (strAt : Nat → Name) (id : Name) : List Sym → Nat → Option Nat
  | [], _ => none
  | sym :: syms, i =>
    if isMatchingSymbol z strAt id sym then some i else findFrom z strAt id syms (i + 1)

/-- `FindSymbol`: the index of the slot it points to. -/
def findSymbol (z : SizeT) (strAt : Nat → Name) (sl : SymbolList) (id : Name) : Option Nat :=
  findFrom z strAt id (sl.syms.take sl.num) 0

/-! ## How a list is filled -/

/-- What a slot is filled with. -/
inductive Fill where
  /-- `AddToSymbolList` with `use_hash`. -/
  | hashed (name : Name) (addr : Nat)
  /-- `AddToSymbolList` without, where `KeStrdup` puts the copy at `str`. -/
  | string (name : Name) (str addr : Nat)
  /-- `AddToSymbolListPreHashed` with the hash of `name`. -/
  | preHashed (name : Name) (addr : Nat)
deriving DecidableEq, Repr

def Fill.name : Fill → Name
  | .hashed name _ => name
  | .string name _ _ => name
  | .preHashed name _ => name

/-- The slot is to be read as a string. -/
def Fill.isString : Fill → Bool
  | .string .. => true
  | _ => false

def SymbolList.fill (z : SizeT) (sl : SymbolList) (index : Nat) : Fill → SymbolList
  | .hashed name addr => sl.add z index name true 0 addr
  | .string name str addr => sl.add z index name false str addr
  | .preHashed name addr => sl.addPreHashed index (hashSymbol name) addr

/-- A new list after `fills`, each with the index of its slot. -/
def filled (z : SizeT) (n : Nat) (fills : List (Nat × Fill)) : SymbolList :=
  fills.foldl (fun sl f => sl.fill z f.1 f.2) (createSymbolList z n)

/-- The last of `fills` for a slot. -/
def lastFill (fills : List (Nat × Fill)) (i : Nat) : Option Fill :=
  fills.foldl (fun last f => if f.1 = i then some f.2 else last) none

/-! ## What a slot holds -/

variable {z : SizeT} {strAt : Nat → Name} {id : Name} {f : Fill}

def Fill.addr : Fill → Nat
  | .hashed _ addr => addr
  | .string _ _ addr => addr
  | .preHashed _ addr => addr

/-- The word that is left in the slot. -/
def Fill.word (z : SizeT) : Fill → Nat
  | .hashed name _ => 2 * hashSymbol name % 18446744073709551616 % z.size
  | .string _ str _ => str
  | .preHashed name _ => 2 * hashSymbol name % 18446744073709551616

def Fill.sym (z : SizeT) (f : Fill) : Sym := { hashOrStr := f.word z, addr := f.addr }

/-- The hash does not fit into the `size_t` that `MakeSymbol` returns. -/
def Fill.truncated (z : SizeT) : Fill → Bool
  | .hashed name _ => z == .bits32 && decide (2147483648 ≤ hashSymbol name)
  | _ => false

theorem hashSymbol_lt (id : Name) : hashSymbol id < 9223372036854775808 :=
  Nat.mod_lt _ (by decide)

theorem isHash_word (hstr : ∀ name str addr, f = .string name str addr → str % 2 = 0) :
    isHash (f.word z) = true := by
  refine beq_iff_eq.mpr ?_
  cases f with
  | hashed name addr => cases z <;> simp only [Fill.word, SizeT.size] <;> omega
  | string name str addr => exact hstr name str addr rfl
  | preHashed name addr => simp only [Fill.word]; omega

theorem truncated_bits64 (f : Fill) : f.truncated .bits64 = false := by
  cases f <;> rfl

theorem truncated_hashed (name : Name) (addr : Nat) :
    (Fill.hashed name addr).truncated .bits32 = true ↔ 2147483648 ≤ hashSymbol name := by
  simp [Fill.truncated]

theorem getHash_word (hs : f.isString = false) :
    getHash (f.word z) =
      if f.truncated z then hashSymbol f.name % 2147483648 else hashSymbol f.name := by
  have hlt := hashSymbol_lt f.name
  cases f with
  | string name str addr => exact absurd hs Bool.noConfusion
  | preHashed name addr =>
    simp only [Fill.word, Fill.truncated, Fill.name, getHash, Bool.false_eq_true, if_false] at hlt ⊢
    omega
  | hashed name addr =>
    simp only [Fill.name] at hlt
    cases z with
    | bits64 =>
      rw [truncated_bits64]
      simp only [Fill.word, Fill.name, getHash, SizeT.size, Bool.false_eq_true, if_false]
      omega
    | bits32 =>
      simp only [truncated_hashed, Fill.word, Fill.name, getHash, SizeT.size]
      split_ifs <;> omega

/-- A slot that is not a string matches by what is left of its hash. -/
theorem isMatchingSymbol_sym (hs : f.isString = false) :
    isMatchingSymbol z strAt id (f.sym z) = true ↔
      hashSymbol id =
        if f.truncated z then hashSymbol f.name % 2147483648 else hashSymbol f.name := by
  have hh : isHash (f.word z) = true :=
    isHash_word fun name str addr hf => by
      subst hf
      exact absurd hs Bool.noConfusion
  unfold isMatchingSymbol Fill.sym
  rw [if_pos hh, beq_iff_eq, getHash_word hs]

/-! ## What the list holds -/

theorem fill_eq (sl : SymbolList) (i : Nat) (f : Fill) :
    sl.fill z i f = { sl with syms := sl.syms.set i (f.sym z) } := by
  cases f <;> rfl

theorem filled_concat (n : Nat) (fills : List (Nat × Fill)) (f : Nat × Fill) :
    filled z n (fills ++ [f]) = (filled z n fills).fill z f.1 f.2 := by
  simp only [filled, List.foldl_append, List.foldl_cons, List.foldl_nil]

theorem lastFill_concat (fills : List (Nat × Fill)) (f : Nat × Fill) (i : Nat) :
    lastFill (fills ++ [f]) i = if f.1 = i then some f.2 else lastFill fills i := by
  simp only [lastFill, List.foldl_append, List.foldl_cons, List.foldl_nil]

theorem num_filled (n : Nat) (fills : List (Nat × Fill)) :
    (filled z n fills).num = n ∧ (filled z n fills).syms.length = n := by
  induction fills using List.reverseRecOn with
  | nil => exact ⟨rfl, List.length_replicate⟩
  | append_singleton fills f ih =>
    rw [filled_concat, fill_eq]
    exact ⟨ih.1, (List.length_set ..).trans ih.2⟩

/-- The last call for a slot decides what it holds. -/
theorem syms_filled {n i : Nat} (hi : i < n) (fills : List (Nat × Fill)) (f : Fill)
    (hf : lastFill fills i = some f) : (filled z n fills).syms[i]? = some (f.sym z) := by
  induction fills using List.reverseRecOn with
  | nil => cases hf
  | append_singleton fills g ih =>
    have hlen : i < (filled z n fills).syms.length := by rw [(num_filled n fills).2]; exact hi
    rw [lastFill_concat] at hf
    rw [filled_concat, fill_eq]
    dsimp only
    by_cases hg : g.1 = i
    · rw [if_pos hg, Option.some.injEq] at hf
      rw [hg, hf, List.getElem?_set_self hlen]
    · rw [if_neg hg] at hf
      rw [List.getElem?_set_ne hg]
      exact ih hf

section Filled

variable {fills : List (Nat × Fill)} {entries : List Fill}

theorem syms_eq_map (hfill : ∀ i, i < entries.length → lastFill fills i = entries[i]?) :
    (filled z entries.length fills).syms = entries.map (Fill.sym z) := by
  refine List.ext_getElem? fun i => ?_
  by_cases hi : i < entries.length
  · have hf := hfill i hi
    rw [List.getElem?_eq_getElem hi] at hf
    rw [syms_filled hi fills _ hf, List.getElem?_map, List.getElem?_eq_getElem hi]
    rfl
  · have hlen := (num_filled (z := z) entries.length fills).2
    rw [List.getElem?_eq_none (by omega), List.getElem?_eq_none (by simpa using hi)]

theorem findFrom_eq (syms : List Sym) (i : Nat) :
    findFrom z strAt id syms i =
      (syms.findIdx? fun sym => isMatchingSymbol z strAt id sym).map (· + i) := by
  induction syms generalizing i with
  | nil => rfl
  | cons sym syms ih =>
    rw [findFrom, List.findIdx?_cons, ih]
    by_cases h : isMatchingSymbol z strAt id sym = true
    · rw [if_pos h, if_pos h]
      simp
    · rw [if_neg h, if_neg h, Option.map_map]
      congr 1
      funext j
      simp only [Function.comp]
      omega

theorem findSymbol_eq (hfill : ∀ i, i < entries.length → lastFill fills i = entries[i]?) :
    findSymbol z strAt (filled z entries.length fills) id =
      entries.findIdx? fun f => isMatchingSymbol z strAt id (f.sym z) := by
  have hlen := (num_filled (z := z) entries.length fills)
  unfold findSymbol
  rw [hlen.1, List.take_of_length_le (Nat.le_of_eq hlen.2), findFrom_eq, syms_eq_map hfill,
    List.findIdx?_map]
  simp [Function.comp_def]

end Filled

/-! ## When a lookup finds what was added -/

/--
The lookup of `id` finds the first entry of that name, and every slot is read as what was put into
it.
-/
structure Finds (z : SizeT) (strAt : Nat → Name) (fills : List (Nat × Fill)) (entries : List Fill)
    (id : Name) : Prop where
  found : findSymbol z strAt (filled z entries.length fills) id =
    entries.findIdx? fun f => f.name == id
  kinds : ∀ (i : Nat) (f : Fill) (sym : Sym), entries[i]? = some f →
    (filled z entries.length fills).syms[i]? = some sym → isHash sym.hashOrStr = !f.isString

/--
No entry is a string; and where a hash was cut to 32 bits, and the entry has the name `id` or the
rest of its hash is the hash of `id`, an earlier entry has that name.
-/
structure Fits (z : SizeT) (entries : List Fill) (id : Name) : Prop where
  noString : ∀ f ∈ entries, f.isString = false
  first : ∀ (i : Nat) (f : Fill), entries[i]? = some f → f.truncated z = true →
    (hashSymbol id = hashSymbol f.name % 2147483648 ∨ f.name = id) →
      ∃ (j : Nat) (g : Fill), j < i ∧ entries[j]? = some g ∧ g.name = id

theorem truncated_le (h : f.truncated z = true) : 2147483648 ≤ hashSymbol f.name := by
  cases f with
  | hashed name addr =>
    cases z with
    | bits64 => exact absurd h Bool.noConfusion
    | bits32 => exact (truncated_hashed name addr).mp h
  | string name str addr => exact absurd h Bool.noConfusion
  | preHashed name addr => exact absurd h Bool.noConfusion

theorem found_iff {entries : List Fill} (hs : ∀ f ∈ entries, f.isString = false)
    (hdist : ∀ f ∈ entries, hashSymbol f.name = hashSymbol id → f.name = id) :
    ((entries.findIdx? fun f => isMatchingSymbol z strAt id (f.sym z)) =
      entries.findIdx? fun f => f.name == id) ↔
    ∀ (i : Nat) (f : Fill), entries[i]? = some f → f.truncated z = true →
      (hashSymbol id = hashSymbol f.name % 2147483648 ∨ f.name = id) →
        ∃ (j : Nat) (g : Fill), j < i ∧ entries[j]? = some g ∧ g.name = id := by
  rw [findIdx?_eq_iff fun f => f.truncated z]
  · refine forall_congr' fun i => forall_congr' fun f => forall_congr' fun hf => ?_
    refine forall_congr' fun ht => ?_
    rw [isMatchingSymbol_sym (hs f (List.mem_of_getElem? hf)), if_pos ht]
    simp only [beq_iff_eq]
  · intro f hf ht
    rw [Bool.eq_iff_iff, isMatchingSymbol_sym (hs f hf), if_neg (Bool.eq_false_iff.mp ht),
      beq_iff_eq]
    exact ⟨fun h => hdist f hf h.symm, fun h => by rw [h]⟩
  · rintro f hf ht ⟨hm, hn⟩
    have hle := truncated_le ht
    rw [isMatchingSymbol_sym (hs f hf), if_pos ht, ← beq_iff_eq.mp hn] at hm
    omega

/--
For every way to fill a list and every name whose hash is not that of another entry: the lookup
finds what was added if and only if no entry is a string and no cut hash comes first.
-/
theorem find_symbol_iff (z : SizeT) (strAt : Nat → Name) (fills : List (Nat × Fill))
    (entries : List Fill) (id : Name)
    (hfill : ∀ i, i < entries.length → lastFill fills i = entries[i]?)
    (heven : ∀ f ∈ entries, ∀ name str addr, f = .string name str addr → str % 2 = 0)
    (hdist : ∀ f ∈ entries, hashSymbol f.name = hashSymbol id → f.name = id) :
    Finds z strAt fills entries id ↔ Fits z entries id := by
  constructor
  · rintro ⟨hfound, hkinds⟩
    have hs : ∀ f ∈ entries, f.isString = false := by
      intro f hf
      obtain ⟨i, hi⟩ := List.mem_iff_getElem?.mp hf
      have hsym : (filled z entries.length fills).syms[i]? = some (f.sym z) := by
        rw [syms_eq_map hfill, List.getElem?_map, hi]
        rfl
      have hk := hkinds i f _ hi hsym
      -- the address is even, so the word is read as a hash in any case
      rw [Fill.sym, isHash_word (heven f hf)] at hk
      exact Bool.not_eq_eq_eq_not.mp hk.symm
    rw [findSymbol_eq hfill] at hfound
    exact ⟨hs, (found_iff hs hdist).mp hfound⟩
  · rintro ⟨hs, hfirst⟩
    refine ⟨?_, fun i f sym hf hsym => ?_⟩
    · rw [findSymbol_eq hfill]
      exact (found_iff hs hdist).mpr hfirst
    · rw [syms_eq_map hfill, List.getElem?_map, hf, Option.map_some, Option.some.injEq] at hsym
      rw [← hsym, hs f (List.mem_of_getElem? hf)]
      exact isHash_word (heven f (List.mem_of_getElem? hf))

theorem find_symbol_iff_hashed :
    Finds .bits64 (fun _ => []) [(0, .hashed [97] 8), (1, .preHashed [98] 12)]
        [.hashed [97] 8, .preHashed [98] 12] [98] ↔
      Fits .bits64 [.hashed [97] 8, .preHashed [98] 12] [98] :=
  find_symbol_iff .bits64 (fun _ => []) _ _ _ (by decide) (by simp) (by decide)

/-- A name that was added as a string is not found, and neither is a hash that was cut. -/
theorem find_symbol_misses :
    (∃ strAt : Nat → Name, strAt 4096 = [97] ∧
      ¬ Finds .bits64 strAt [(0, .string [97] 4096 8)] [.string [97] 4096 8] [97]) ∧
    ¬ Finds .bits32 (fun _ => []) [(0, .hashed [97] 8)] [.hashed [97] 8] [97] := by
  refine ⟨⟨fun _ => [97], rfl, fun h => ?_⟩, fun h => ?_⟩
  · exact absurd h.found (by decide)
  · exact absurd h.found (by decide)

end Nolrem.Dynlib
