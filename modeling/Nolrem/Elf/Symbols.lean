import Nolrem.Lib.Reads

/-!
# The symbols of an ELF file

`ArchLoadSymbols` of `kernel/arch/x86/elf/symbols.c`, with `IsElfValid` of `validelf.c` and what
`AddToSymbolList` reads of a name. Addresses count from the start of the mapping and wrap after
32 bits. Memory for the copies of the names is taken to be there.
-/

namespace Nolrem.Elf

open Nolrem.Lib

/-! ## The code -/

/-- One more than the last address. -/
def addressSpace : Nat := 4294967296

/-- What is not in the file: whether the mapping and the list get their memory, and the arguments. -/
structure Env where
  mapOk : Bool
  listOk : Bool
  adjust : Nat
  useHash : Bool

/-- A call of `AddToSymbolList`: the slot, the name and the address. -/
structure Add where
  index : Nat
  name : List Nat
  addr : Nat
deriving DecidableEq, Repr

/-- How the call ends. -/
inductive Outcome where
  /-- `return NULL`, with the mapping still there or not. -/
  | failed (mapped : Bool)
  /-- The list of `total` slots after the calls of `AddToSymbolList`. -/
  | loaded (total : Nat) (adds : List Add)
  /-- Something is written through a null pointer, or an assertion fails. -/
  | faulted
  /-- A string has no end. -/
  | hangs
deriving DecidableEq, Repr

/-- The tables that were found; 0 where there is none. -/
structure Tables where
  symOffset : Nat
  symLength : Nat
  strOffset : Nat
  strLength : Nat
deriving DecidableEq, Repr

/-- `strcmp(name, lit) == 0`, for the characters of `lit`, none of which is 0. -/
def strEq (mem : Nat → Nat) : List Nat → Nat → Reads Bool
  | [], x => do
    let c ← byteAt mem x
    pure (c == 0)
  | l :: lit, x => do
    let c ← byteAt mem x
    if c = l then strEq mem lit (x + 1) else pure false

/-- The string at `x`, as `strlen`, `strcpy` and `HashSymbol` go through it. -/
def cString (mem : Nat → Nat) : Nat → Nat → Reads (Option (List Nat))
  | 0, _ => pure none
  | fuel + 1, x => do
    let c ← byteAt mem x
    if c = 0 then pure (some [])
    else do
      let rest ← cString mem fuel ((x + 1) % addressSpace)
      pure (rest.map (c :: ·))

/-- `".symtab"` -/
def symtab : List Nat := [46, 115, 121, 109, 116, 97, 98]

/-- `".strtab"` -/
def strtab : List Nat := [46, 115, 116, 114, 116, 97, 98]

/-- `IsElfValid` -/
def isElfValid (mem : Nat → Nat) : Reads Bool := do
  let m0 ← byteAt mem 0
  if m0 ≠ 127 then pure false
  else do
    let m1 ← byteAt mem 1
    if m1 ≠ 69 then pure false
    else do
      let m2 ← byteAt mem 2
      if m2 ≠ 76 then pure false
      else do
        let m3 ← byteAt mem 3
        pure (m3 == 70)

/-- `IsVisibleSymbol`, for the symbol at `sym`. -/
def isVisibleSymbol (mem : Nat → Nat) (sym : Nat) : Reads Bool := do
  let value ← le32 mem (sym + 4)
  if value = 0 then pure false
  else do
    let other ← byteAt mem (sym + 13)
    pure (other % 4 == 0)

/-- One section header of the loop that looks for the tables. -/
def findTable (mem : Nat → Nat) (shstrtab names header : Nat) (t : Tables) : Reads Tables := do
  let name ← le32 mem header
  let size ← le32 mem (shstrtab + 20)
  if size ≤ name then pure t
  else do
    let isSym ← strEq mem symtab (names + name)
    if isSym then do
      let offset ← le32 mem (header + 16)
      let length ← le32 mem (header + 20)
      pure { t with symOffset := offset, symLength := length }
    else do
      let isStr ← strEq mem strtab (names + name)
      if isStr then do
        let offset ← le32 mem (header + 16)
        let length ← le32 mem (header + 20)
        pure { t with strOffset := offset, strLength := length }
      else pure t

/-- The loop, for `k` headers from the one at `header` on. -/
def findTables (mem : Nat → Nat) (shstrtab names : Nat) : Nat → Nat → Tables → Reads Tables
  | 0, _, t => pure t
  | k + 1, header, t => do
    let t ← findTable mem shstrtab names header t
    findTables mem shstrtab names k (header + 40) t

/-- Pass 1. -/
def countVisible (mem : Nat → Nat) : Nat → Nat → Nat → Reads Nat
  | 0, _, total => pure total
  | k + 1, sym, total => do
    let visible ← isVisibleSymbol mem sym
    countVisible mem k (sym + 16) (if visible then total + 1 else total)

/-- What `AddToSymbolList` reads: `HashSymbol` once, `KeStrdup` twice. -/
def readName (mem : Nat → Nat) (useHash : Bool) (x : Nat) : Reads (Option (List Nat)) := do
  let name ← cString mem addressSpace x
  if useHash then pure name
  else
    match name with
    | none => pure none
    | some _ => cString mem addressSpace x

/-- Pass 2. -/
def addVisible (mem : Nat → Nat) (e : Env) (strings : Nat) : Nat → Nat → Nat →
    Reads (Option (List Add))
  | 0, _, _ => pure (some [])
  | k + 1, sym, next => do
    let visible ← isVisibleSymbol mem sym
    if visible then do
      let stName ← le32 mem sym
      let value ← le32 mem (sym + 4)
      let name ← readName mem e.useHash ((strings + stName) % addressSpace)
      match name with
      | none => pure none
      | some name => do
        let rest ← addVisible mem e strings k (sym + 16) (next + 1)
        pure (rest.map ({ index := next, name, addr := (value + e.adjust) % addressSpace } :: ·))
    else addVisible mem e strings k (sym + 16) next

/-- `ArchLoadSymbols`, once the tables are checked. -/
def loadTables (mem : Nat → Nat) (e : Env) (t : Tables) : Reads Outcome := do
  let total ← countVisible mem (t.symLength / 16) t.symOffset 0
  if e.listOk then do
    let adds ← addVisible mem e t.strOffset (t.symLength / 16) t.symOffset 0
    match adds with
    | none => pure .hangs
    | some adds => pure (if adds.length = total then .loaded total adds else .faulted)
  else pure .faulted

/-- The check of the tables. -/
def badTables (n : Nat) (t : Tables) : Prop :=
  t.symOffset = 0 ∨ t.strOffset = 0 ∨ t.symLength = 0 ∨ t.strLength = 0 ∨
    n < t.symOffset + t.symLength ∨ n < t.strOffset + t.strLength

instance (n : Nat) (t : Tables) : Decidable (badTables n t) := by
  unfold badTables
  infer_instance

/-- From the header of the header names on. -/
def loadSections (mem : Nat → Nat) (n : Nat) (e : Env) (shoff shnum shstrndx : Nat) :
    Reads Outcome := do
  let shstrtab := shoff + 40 * shstrndx
  let offset ← le32 mem (shstrtab + 16)
  let size ← le32 mem (shstrtab + 20)
  if n < offset + size then pure (.failed true)
  else do
    let t ← findTables mem shstrtab offset shnum shoff ⟨0, 0, 0, 0⟩
    if badTables n t then pure (.failed true)
    else loadTables mem e t

/-- `ArchLoadSymbols`, once the file is mapped. -/
def loadMapped (mem : Nat → Nat) (n : Nat) (e : Env) : Reads Outcome := do
  let valid ← isElfValid mem
  if valid then do
    let shoff ← le32 mem 32
    if shoff = 0 then pure (.failed true)
    else do
      let shnum ← le16 mem 48
      if n < shoff + shnum * 40 then pure (.failed true)
      else do
        let shstrndx ← le16 mem 50
        if shnum ≤ shstrndx then pure (.failed true)
        else loadSections mem n e shoff shnum shstrndx
  else pure (.failed true)

/-- `ArchLoadSymbols` for a file of `n` bytes that is mapped at 0 of `mem`. -/
def archLoadSymbols (mem : Nat → Nat) (n : Nat) (e : Env) : Reads Outcome :=
  if n < 52 then pure (.failed false)
  else if e.mapOk then loadMapped mem n e
  else pure (.failed false)

/-! ## What is asked of the call -/

/-- No read leaves the file, the call ends, and what it leaves behind is in order. -/
structure Safe (n : Nat) (m : Reads Outcome) : Prop where
  inside : m.Inside n
  ends : m.value ≠ .hangs ∧ m.value ≠ .faulted
  released : m.value ≠ .failed true
  filled : ∀ total adds, m.value = .loaded total adds → adds.map Add.index = List.range total

/-- The string at `x` ends in the file. -/
def NameEnds (mem : Nat → Nat) (n x : Nat) : Prop := ∃ z, x ≤ z ∧ z < n ∧ mem z = 0

/-- The comparisons for a section header do not leave the file. -/
def Compares (mem : Nat → Nat) (n shstrtab names header : Nat) : Prop :=
  (le32 mem header).value < (le32 mem (shstrtab + 20)).value →
    (strEq mem symtab (names + (le32 mem header).value)).Inside n ∧
      ((strEq mem symtab (names + (le32 mem header).value)).value = false →
        (strEq mem strtab (names + (le32 mem header).value)).Inside n)

/-- The name of each visible symbol ends in the file. -/
def NamesEnd (mem : Nat → Nat) (n : Nat) (t : Tables) : Prop :=
  ∀ i, i < t.symLength / 16 → (isVisibleSymbol mem (t.symOffset + 16 * i)).value = true →
    NameEnds mem n ((t.strOffset + (le32 mem (t.symOffset + 16 * i)).value) % addressSpace)

variable {mem : Nat → Nat} {n x k : Nat} {e : Env} {t : Tables}

/-! ## Strings -/

/-- Going through the string at `x` stays in the file, and comes to an end, if a zero follows. -/
theorem cString_iff (hn : n < addressSpace) {fuel : Nat} : ∀ {x}, x < addressSpace → n ≤ x + fuel →
    ((cString mem fuel x).Inside n ∧ (cString mem fuel x).value ≠ none ↔ NameEnds mem n x) := by
  induction fuel with
  | zero =>
    intro x _ hfuel
    refine iff_of_false (fun h => h.2 rfl) ?_
    rintro ⟨z, h1, h2, -⟩
    omega
  | succ fuel ih =>
    intro x hx hfuel
    rw [cString]
    simp only [Reads.inside_bind, inside_byteAt, value_byteAt, Reads.value_bind]
    by_cases h0 : mem x = 0
    · simp only [h0, if_true, Reads.inside_pure, Reads.value_pure, and_true, ne_eq, reduceCtorEq,
        not_false_eq_true]
      refine ⟨fun h => ⟨x, Nat.le_refl x, h, h0⟩, ?_⟩
      rintro ⟨z, h1, h2, -⟩
      omega
    · simp only [h0, if_false, Reads.inside_bind, Reads.inside_pure, Reads.value_bind,
        Reads.value_pure, and_true, ne_eq, Option.map_eq_none_iff]
      by_cases hxn : x < n
      · have hmod : (x + 1) % addressSpace = x + 1 := Nat.mod_eq_of_lt (by omega)
        have hnext := ih (x := x + 1) (by omega) (by omega)
        rw [hmod, and_assoc, and_iff_right hxn, hnext]
        constructor
        · rintro ⟨z, h1, h2, hz⟩
          exact ⟨z, by omega, h2, hz⟩
        · rintro ⟨z, h1, h2, hz⟩
          have hne : z ≠ x := fun h => h0 (h ▸ hz)
          exact ⟨z, by omega, h2, hz⟩
      · refine iff_of_false (fun h => hxn h.1.1) ?_
        rintro ⟨z, h1, h2, -⟩
        omega

theorem readName_iff (hn : n < addressSpace) (hx : x < addressSpace) (useHash : Bool) :
    (readName mem useHash x).Inside n ∧ (readName mem useHash x).value ≠ none ↔
      NameEnds mem n x := by
  have hc : (cString mem addressSpace x).Inside n ∧ (cString mem addressSpace x).value ≠ none ↔
      NameEnds mem n x := cString_iff hn hx (by omega)
  rw [← hc]
  unfold readName
  simp only [Reads.inside_bind, Reads.value_bind]
  cases useHash with
  | true => simp
  | false => cases h : (cString mem addressSpace x).value <;> simp [h]

/-! ## The tables -/

theorem inside_isVisibleSymbol (h : x + 16 ≤ n) : (isVisibleSymbol mem x).Inside n := by
  simp only [isVisibleSymbol, Reads.inside_bind, inside_le32, Reads.inside_ite, inside_byteAt,
    Reads.inside_pure, implies_true, and_true, true_and]
  omega

theorem inside_countVisible {total : Nat} (h : x + 16 * k ≤ n) :
    (countVisible mem k x total).Inside n := by
  induction k generalizing x total with
  | zero => exact Reads.inside_pure total
  | succ k ih =>
    rw [countVisible, Reads.inside_bind]
    exact ⟨inside_isVisibleSymbol (by omega), ih (by omega)⟩

theorem value_countVisible_le {total : Nat} : total ≤ (countVisible mem k x total).value := by
  induction k generalizing x total with
  | zero => exact Nat.le_refl total
  | succ k ih =>
    rw [countVisible, Reads.value_bind]
    refine Nat.le_trans ?_ ih
    split_ifs <;> omega

/-- Both passes see the same symbols. -/
theorem addVisible_indices {strings next : Nat} {adds : List Add}
    (h : (addVisible mem e strings k x next).value = some adds) :
    adds.map Add.index = List.range' next ((countVisible mem k x next).value - next) := by
  induction k generalizing x next adds with
  | zero =>
    cases h
    simp [countVisible]
  | succ k ih =>
    rw [addVisible, Reads.value_bind] at h
    rw [countVisible, Reads.value_bind]
    by_cases hv : (isVisibleSymbol mem x).value = true
    · rw [if_pos hv, Reads.value_bind, Reads.value_bind, Reads.value_bind] at h
      rw [if_pos hv]
      generalize (readName mem e.useHash _).value = name at h
      cases name with
      | none => cases h
      | some name =>
        dsimp only at h
        rw [Reads.value_bind, Reads.value_pure, Option.map_eq_some_iff] at h
        obtain ⟨rest, hrest, rfl⟩ := h
        have hle : next + 1 ≤ (countVisible mem k (x + 16) (next + 1)).value :=
          value_countVisible_le
        have hlen : (countVisible mem k (x + 16) (next + 1)).value - next =
            (countVisible mem k (x + 16) (next + 1)).value - (next + 1) + 1 := by omega
        rw [List.map_cons, ih hrest, hlen, List.range'_succ]
    · rw [if_neg hv] at h ⊢
      exact ih h

theorem addVisible_iff (hn : n < addressSpace) {strings next : Nat} (h : x + 16 * k ≤ n) :
    (addVisible mem e strings k x next).Inside n ∧
        (addVisible mem e strings k x next).value ≠ none ↔
      ∀ i, i < k → (isVisibleSymbol mem (x + 16 * i)).value = true →
        NameEnds mem n ((strings + (le32 mem (x + 16 * i)).value) % addressSpace) := by
  induction k generalizing x next with
  | zero =>
    refine iff_of_true ⟨Reads.inside_pure _, ?_⟩ fun i hi => absurd hi (Nat.not_lt_zero i)
    exact Option.some_ne_none _
  | succ k ih =>
    have hsplit : (∀ i, i < k + 1 → (isVisibleSymbol mem (x + 16 * i)).value = true →
          NameEnds mem n ((strings + (le32 mem (x + 16 * i)).value) % addressSpace)) ↔
        ((isVisibleSymbol mem x).value = true →
            NameEnds mem n ((strings + (le32 mem x).value) % addressSpace)) ∧
          ∀ i, i < k → (isVisibleSymbol mem (x + 16 + 16 * i)).value = true →
            NameEnds mem n ((strings + (le32 mem (x + 16 + 16 * i)).value) % addressSpace) := by
      rw [Nat.forall_lt_succ_left']
      simp only [Nat.mul_zero, Nat.add_zero, Nat.mul_add, Nat.mul_one, Nat.add_assoc,
        Nat.add_comm 16]
    have hvis : (isVisibleSymbol mem x).Inside n := inside_isVisibleSymbol (by omega)
    have hlt : ∀ a, a % addressSpace < addressSpace := fun a => Nat.mod_lt _ (by decide)
    rw [hsplit, addVisible, Reads.inside_bind, Reads.value_bind, and_iff_right hvis]
    by_cases hv : (isVisibleSymbol mem x).value = true
    · have hend := hlt (strings + (le32 mem x).value)
      have hrest : (addVisible mem e strings k (x + 16) (next + 1)).Inside n ∧
          (addVisible mem e strings k (x + 16) (next + 1)).value ≠ none ↔ _ := ih (by omega)
      rw [if_pos hv, forall_prop_of_true hv, ← readName_iff hn hend e.useHash, ← hrest]
      simp only [Reads.inside_bind, Reads.value_bind, inside_le32]
      have h4 : x + 4 ≤ n := by omega
      have h8 : x + 4 + 4 ≤ n := by omega
      rw [and_iff_right h4, and_iff_right h8]
      generalize readName mem e.useHash _ = r
      cases hr : r.value with
      | none => simp
      | some name => simp [and_assoc]
    · rw [if_neg hv, ih (by omega)]
      exact ⟨fun h => ⟨fun h' => absurd h' hv, h⟩, fun h => h.2⟩

theorem inside_findTable {shstrtab names header : Nat} (hs : shstrtab + 40 ≤ n)
    (hh : header + 40 ≤ n) :
    (findTable mem shstrtab names header t).Inside n ↔ Compares mem n shstrtab names header := by
  have h1 : header + 4 ≤ n := by omega
  have h2 : shstrtab + 20 + 4 ≤ n := by omega
  have h3 : header + 16 + 4 ≤ n := by omega
  have h4 : header + 20 + 4 ≤ n := by omega
  unfold findTable Compares
  simp only [Reads.inside_bind, inside_le32, Reads.inside_ite, Reads.inside_pure, h1, h2, h3, h4,
    true_and, implies_true, and_true, Nat.not_le, Bool.not_eq_true]

/-- The loop reads the same whatever it has found. -/
theorem inside_findTables {shstrtab names header : Nat} (hs : shstrtab + 40 ≤ n)
    (hh : header + 40 * k ≤ n) :
    (findTables mem shstrtab names k header t).Inside n ↔
      ∀ i, i < k → Compares mem n shstrtab names (header + 40 * i) := by
  induction k generalizing header t with
  | zero => exact iff_of_true (Reads.inside_pure t) fun i hi => absurd hi (Nat.not_lt_zero i)
  | succ k ih =>
    rw [findTables, Reads.inside_bind, inside_findTable hs (by omega), ih (by omega),
      Nat.forall_lt_succ_left']
    simp only [Nat.mul_zero, Nat.add_zero, Nat.mul_add, Nat.mul_one, Nat.add_assoc,
      Nat.add_comm 40]

/-! ## The whole call -/

theorem safe_bind {α : Type} {m : Reads α} {f : α → Reads Outcome} :
    Safe n (m >>= f) ↔ m.Inside n ∧ Safe n (f m.value) := by
  constructor
  · rintro ⟨hin, hends, hrel, hfill⟩
    rw [Reads.inside_bind] at hin
    exact ⟨hin.1, hin.2, hends, hrel, hfill⟩
  · rintro ⟨hm, hin, hends, hrel, hfill⟩
    exact ⟨Reads.inside_bind.mpr ⟨hm, hin⟩, hends, hrel, hfill⟩

theorem safe_failed (mapped : Bool) :
    Safe n (pure (.failed mapped)) ↔ mapped = false := by
  constructor
  · intro h
    exact Bool.eq_false_iff.mpr fun hm => h.released (by rw [hm]; rfl)
  · rintro rfl
    exact ⟨Reads.inside_pure _, ⟨by simp, by simp⟩, by simp, by simp⟩

/-- A check whose failure leaves the mapping behind. -/
theorem safe_check {c : Prop} [Decidable c] {m : Reads Outcome} :
    Safe n (if c then pure (.failed true) else m) ↔ ¬ c ∧ Safe n m := by
  split_ifs with h
  · exact iff_of_false (fun hs => hs.released rfl) fun hs => hs.1 h
  · exact ⟨fun hs => ⟨h, hs⟩, fun hs => hs.2⟩

theorem safe_loadTables (hn : n < addressSpace) (ht : ¬ badTables n t) :
    Safe n (loadTables mem e t) ↔ e.listOk = true ∧ NamesEnd mem n t := by
  have hsym : t.symOffset + 16 * (t.symLength / 16) ≤ n := by
    unfold badTables at ht
    omega
  unfold loadTables NamesEnd
  rw [safe_bind, and_iff_right (inside_countVisible hsym)]
  by_cases hl : e.listOk = true
  · rw [if_pos hl, and_iff_right hl, safe_bind, ← addVisible_iff hn hsym]
    refine and_congr_right fun _ => ?_
    cases hr : (addVisible mem e t.strOffset (t.symLength / 16) t.symOffset 0).value with
    | none => exact iff_of_false (fun h => h.ends.1 rfl) fun h => h rfl
    | some adds =>
      have hidx := addVisible_indices hr
      rw [Nat.sub_zero, ← List.range_eq_range'] at hidx
      have hlen : adds.length =
          (countVisible mem (t.symLength / 16) t.symOffset 0).value := by
        rw [← List.length_map Add.index, hidx, List.length_range]
      dsimp only
      rw [if_pos hlen]
      refine iff_of_true ⟨Reads.inside_pure _, ⟨by simp, by simp⟩, by simp, ?_⟩ (by simp)
      intro total adds' heq
      cases heq
      exact hidx
  · rw [if_neg hl]
    exact iff_of_false (fun h => h.ends.2 rfl) fun h => hl h.1

/-- `e_shoff` -/
def shoff (mem : Nat → Nat) : Nat := (le32 mem 32).value

/-- `e_shnum` -/
def shnum (mem : Nat → Nat) : Nat := (le16 mem 48).value

/-- `e_shstrndx` -/
def shstrndx (mem : Nat → Nat) : Nat := (le16 mem 50).value

/-- Where the header of the section names is. -/
def shstrtab (mem : Nat → Nat) : Nat := shoff mem + 40 * shstrndx mem

/-- Where the section names are. -/
def sectionNames (mem : Nat → Nat) : Nat := (le32 mem (shstrtab mem + 16)).value

/-- The symbol table and the string table of the file. -/
def tables (mem : Nat → Nat) : Tables :=
  (findTables mem (shstrtab mem) (sectionNames mem) (shnum mem) (shoff mem) ⟨0, 0, 0, 0⟩).value

/--
The file passes every check, no comparison of a section name leaves it, and the names of the visible
symbols end in it.
-/
structure Accepted (mem : Nat → Nat) (n : Nat) (e : Env) : Prop where
  valid : (isElfValid mem).value = true
  offset : shoff mem ≠ 0
  headers : shoff mem + shnum mem * 40 ≤ n
  index : shstrndx mem < shnum mem
  names : sectionNames mem + (le32 mem (shstrtab mem + 20)).value ≤ n
  compares : ∀ i, i < shnum mem →
    Compares mem n (shstrtab mem) (sectionNames mem) (shoff mem + 40 * i)
  tables : ¬ badTables n (tables mem)
  list : e.listOk = true
  symbols : NamesEnd mem n (Elf.tables mem)

theorem inside_isElfValid (h : 52 ≤ n) : (isElfValid mem).Inside n := by
  unfold isElfValid
  simp only [Reads.inside_bind, inside_byteAt, Reads.inside_ite, Reads.inside_pure, and_true,
    implies_true, true_and]
  omega

theorem safe_loadSections (hn : n < addressSpace) (hh : shoff mem + shnum mem * 40 ≤ n)
    (hi : shstrndx mem < shnum mem) :
    Safe n (loadSections mem n e (shoff mem) (shnum mem) (shstrndx mem)) ↔
      sectionNames mem + (le32 mem (shstrtab mem + 20)).value ≤ n ∧
        (∀ i, i < shnum mem →
          Compares mem n (shstrtab mem) (sectionNames mem) (shoff mem + 40 * i)) ∧
          ¬ badTables n (tables mem) ∧ e.listOk = true ∧ NamesEnd mem n (tables mem) := by
  have hlast : shstrtab mem + 40 ≤ n := by
    have : 40 * (shstrndx mem + 1) ≤ shnum mem * 40 := by omega
    unfold shstrtab
    omega
  unfold loadSections
  simp only [safe_bind, inside_le32]
  rw [and_iff_right (by unfold shstrtab at hlast; omega),
    and_iff_right (by unfold shstrtab at hlast; omega), safe_check, Nat.not_lt]
  refine and_congr_right fun _ => ?_
  rw [safe_bind]
  refine and_congr (inside_findTables hlast (by omega)) ?_
  rw [safe_check]
  refine and_congr_right fun ht => ?_
  exact safe_loadTables hn ht

theorem safe_loadMapped (hn : n < addressSpace) (h : 52 ≤ n) :
    Safe n (loadMapped mem n e) ↔ Accepted mem n e := by
  unfold loadMapped
  rw [safe_bind, and_iff_right (inside_isElfValid h)]
  by_cases hv : (isElfValid mem).value = true
  · have h32 : 32 + 4 ≤ n := by omega
    have h48 : 48 + 2 ≤ n := by omega
    have h50 : 50 + 2 ≤ n := by omega
    rw [if_pos hv]
    simp only [safe_bind, safe_check, inside_le32, inside_le16, h32, h48, h50, true_and, Nat.not_lt,
      Nat.not_le]
    constructor
    · rintro ⟨h1, h2, h3, hs⟩
      obtain ⟨h4, h5, h6, h7, h8⟩ := (safe_loadSections hn h2 h3).mp hs
      exact ⟨hv, h1, h2, h3, h4, h5, h6, h7, h8⟩
    · intro ha
      exact ⟨ha.offset, ha.headers, ha.index, (safe_loadSections hn ha.headers ha.index).mpr
        ⟨ha.names, ha.compares, ha.tables, ha.list, ha.symbols⟩⟩
  · rw [if_neg hv]
    exact iff_of_false (fun hs => hs.released rfl) fun ha => hv ha.valid

/--
For every file and every memory around it: the call is safe if and only if it fails before the file
is mapped, or the file is accepted.
-/
theorem load_symbols_safe_iff (mem : Nat → Nat) (n : Nat) (e : Env) (hn : n < addressSpace) :
    Safe n (archLoadSymbols mem n e) ↔ n < 52 ∨ e.mapOk = false ∨ Accepted mem n e := by
  unfold archLoadSymbols
  by_cases h : n < 52
  · rw [if_pos h]
    exact iff_of_true ((safe_failed false).mpr rfl) (Or.inl h)
  · rw [if_neg h, or_iff_right h]
    by_cases hm : e.mapOk = true
    · rw [if_pos hm, or_iff_right (by rw [hm]; exact Bool.noConfusion)]
      exact safe_loadMapped hn (by omega)
    · rw [if_neg hm]
      exact iff_of_true ((safe_failed false).mpr rfl) (Or.inl (Bool.eq_false_iff.mpr hm))

theorem load_symbols_safe_iff_zeros :
    Safe 64 (archLoadSymbols (fun _ => 0) 64 ⟨true, true, 0, true⟩) ↔
      64 < 52 ∨ true = false ∨ Accepted (fun _ => 0) 64 ⟨true, true, 0, true⟩ :=
  load_symbols_safe_iff (fun _ => 0) 64 ⟨true, true, 0, true⟩ (by decide)

/-- A file with one symbol, whose name is the last byte and does not end. -/
def openName : List Nat :=
  -- the header: 3 section headers at 52, the first one for the section names
  [127, 69, 76, 70] ++ List.replicate 28 0 ++ [52, 0, 0, 0] ++ List.replicate 12 0 ++
    [3, 0, 0, 0] ++
  -- the section names (with a name of its own that is past their end), `.symtab` and `.strtab`
  [100, 0, 0, 0] ++ List.replicate 12 0 ++ [172, 0, 0, 0, 16, 0, 0, 0] ++ List.replicate 16 0 ++
  [0, 0, 0, 0] ++ List.replicate 12 0 ++ [188, 0, 0, 0, 16, 0, 0, 0] ++ List.replicate 16 0 ++
  [8, 0, 0, 0] ++ List.replicate 12 0 ++ [204, 0, 0, 0, 1, 0, 0, 0] ++ List.replicate 16 0 ++
  symtab ++ [0] ++ strtab ++ [0] ++
  -- the symbol and its name
  [0, 0, 0, 0, 1, 0, 0, 0] ++ List.replicate 8 0 ++ [97]

/--
The name of the symbol is read past the end of the file; and a file of zeros that is not an ELF file
stays mapped.
-/
theorem load_symbols_unsafe :
    ¬ Safe 205 (archLoadSymbols (fun x => openName.getD x 0) 205 ⟨true, true, 0, true⟩) ∧
      ¬ Safe 52 (archLoadSymbols (fun _ => 0) 52 ⟨true, true, 0, true⟩) := by
  refine ⟨fun h => ?_, fun h => ?_⟩
  · exact absurd (h.inside 205 (by decide +kernel)) (by decide)
  · exact absurd h.released (by decide +kernel)

end Nolrem.Elf
