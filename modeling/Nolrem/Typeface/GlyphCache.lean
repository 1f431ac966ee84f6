import Mathlib.Data.List.Range
import Mathlib.Logic.Function.Basic
import Nolrem.Lib.Transition

/-!
# The cache of scaled glyphs

`kernel/CLIPDRAW/font/scale_glyph_cache.c`. The table is allocated when it is first needed. Bitmaps
are numbered in the order in which they are allocated, and a call that reads the table when there is
none, or frees what is not allocated, is a fault.
-/

namespace Nolrem.Typeface.GlyphCache

open Nolrem.Lib

/-! ## The data -/

/-- `NUM_CACHED_GLYPHS` -/
def numCachedGlyphs : Nat := 64

/-- `struct glyph_cache_entry`, of 16 bytes. A null `data` is `none`. -/
structure Entry where
  fnt : Nat
  style : Nat
  inUse : Nat
  ascii : Nat
  lru : Nat
  data : Option Nat
deriving DecidableEq, Repr

/-- An entry of zeros -/
def Entry.zero : Entry := ⟨0, 0, 0, 0, 0, none⟩

abbrev Table := Nat → Entry

/-- The globals of the file, and the bitmaps in memory -/
structure Cache where
  table : Option Table
  numCached : Nat
  bitmaps : Nat → Option (List UInt8)
  allocated : Nat
  fault : Bool

/-- The entry has a bitmap of this glyph. -/
def Entry.isFor (font style c : Nat) (e : Entry) : Bool :=
  e.fnt = font ∧ e.ascii = c ∧ e.style = style ∧ e.data ≠ none

namespace Cache

/-- `FreeHeap` of a bitmap -/
def freeBitmap (s : Cache) (block : Nat) : Cache :=
  match s.bitmaps block with
  | none => { s with fault := true }
  | some _ => { s with bitmaps := Function.update s.bitmaps block none }

/-- `++num_cached` -/
def countUp (s : Cache) : Cache := { s with numCached := (s.numCached + 1) % 4294967296 }

/-- `--num_cached` -/
def countDown (s : Cache) : Cache := { s with numCached := (s.numCached + 4294967295) % 4294967296 }

/-- `if (num_cached == 0)`, then the table is freed. -/
def dropTable (s : Cache) : Cache := if s.numCached = 0 then { s with table := none } else s

/-! ## The calls -/

/-- `GetCacheScaledGlyph`: the index and the bitmap, if it does not return `NULL`. `hasIndex` says
that `index_out` is not `NULL`. -/
def getCacheScaledGlyph (s : Cache) (font style c : Nat) (hasIndex : Bool) :
    Option (Int × Nat) × Cache :=
  if c < 0x20 ∨ c > 0x7F ∨ !hasIndex then (none, s)
  else
    match s.table with
    | none => (none, { s with fault := true })
    | some t =>
      match (List.range numCachedGlyphs).find? fun i => (t i).isFor font style c with
      | none => (none, s)
      | some i =>
        let t := Function.update t i { t i with inUse := ((t i).inUse + 1) % 256 }
        -- from here on the code uses the first entry
        let t := Function.update t 0 { t 0 with lru := (t 0).lru ||| 0x8000 }
        ((t 0).data.map fun data => (1, data), { s with table := some t })

/-- `ReleaseCachedScaledGlyph`. The entry it looks at lies outside of the table. -/
def releaseCachedScaledGlyph (s : Cache) (index : Int) : Cache :=
  let s := if index ≥ numCachedGlyphs ∨ index < 0 then { s with fault := true } else s
  s.dropTable

/-- A round of `PurgeScaledGlyphCacheIfNeeded` -/
def purgeEntry (veryLow : Bool) (s : Cache) (i : Nat) : Cache :=
  match s.table with
  | none => { s with fault := true }
  | some t =>
    match (t i).data with
    | none => s
    | some block =>
      if (t i).inUse = 0 ∧ (veryLow ∨ (t i).lru = 0) then
        let s := s.freeBitmap block
        { s with table := some (Function.update t i { t i with data := none }) }.countDown
      else s

/-- `PurgeScaledGlyphCacheIfNeeded`, with the answers of `IsMemoryRunningLow` and `IsMemoryLow` -/
def purgeScaledGlyphCacheIfNeeded (s : Cache) (runningLow veryLow : Bool) : Cache :=
  if !runningLow ∨ s.numCached = 0 then s
  else ((List.range numCachedGlyphs).foldl (purgeEntry veryLow) s).dropTable

/-- The table and the variables of the loop of `SuggestAddScaledGlyphToCache` -/
structure Scan where
  table : Table
  lowestLru : Nat
  lowestIndex : Nat
  foundExactMatch : Bool

/-- A round of the loop -/
def Scan.round (font style c : Nat) (sc : Scan) (i : Nat) : Scan :=
  let e := sc.table i
  let lower : Bool := e.data ≠ none ∧ e.lru < sc.lowestLru ∧ e.inUse = 0
  let hit := e.isFor font style c
  { table := Function.update sc.table i
      { e with lru := if hit then e.lru >>> 1 ||| 0x8000 else e.lru >>> 1 }
    lowestLru := if lower then e.lru else sc.lowestLru
    lowestIndex := if lower then i else sc.lowestIndex
    foundExactMatch := sc.foundExactMatch || hit }

/-- The loop over the first `n` entries -/
def scan (font style c : Nat) (t : Table) (n : Nat) : Scan :=
  (List.range n).foldl (Scan.round font style c) ⟨t, 0xFFFF, 0, false⟩

/-- `memset(scaled_font_cache, 0, NUM_CACHED_GLYPHS)`: as many bytes as four entries have -/
def clearStart (mem : Table) : Table := fun i => if i < 4 then Entry.zero else mem i

/-- What the entry had is freed, or there is one more. -/
def makeRoom (s : Cache) : Option Nat → Cache
  | some block => s.freeBitmap block
  | none => s.countUp

/-- `SuggestAddScaledGlyphToCache` from its loop on, and whether it added the bitmap. `heap` says
whether the memory for it is there. -/
def addBitmap (s : Cache) (t : Table) (font style c : Nat) (bitmap : List UInt8) (heap : Bool) :
    Bool × Cache :=
  let sc := scan font style c t numCachedGlyphs
  let e := sc.table sc.lowestIndex
  if e.inUse = 0 ∧ !sc.foundExactMatch then
    let s := s.makeRoom e.data
    if !heap then
      let t := Function.update sc.table sc.lowestIndex { e with data := none }
      (false, { s with table := some t })
    else
      let t := Function.update sc.table sc.lowestIndex
        { e with fnt := font, style := style, ascii := c, lru := 0xFFFF, data := some s.allocated }
      (true,
        { s with
          table := some t
          bitmaps := Function.update s.bitmaps s.allocated (some bitmap)
          allocated := s.allocated + 1 })
  else (false, { s with table := some sc.table })

/-- `SuggestAddScaledGlyphToCache`, and whether it added the bitmap. `mem` is the memory for a new
table, if there is any. -/
def suggestAddScaledGlyphToCache (s : Cache) (font style c : Nat) (bitmap : List UInt8)
    (runningLow : Bool) (mem : Option Table) (heap : Bool) : Bool × Cache :=
  if c < 0x20 ∨ c > 0x7F ∨ runningLow then (false, s)
  else
    match s.table with
    | some t => s.addBitmap t font style c bitmap heap
    | none =>
      match mem with
      | none => (false, s)
      | some mem => s.addBitmap (clearStart mem) font style c bitmap heap

/-- How many entries of the table have data -/
def entriesWithData (s : Cache) : Nat :=
  match s.table with
  | none => 0
  | some t => ((List.range numCachedGlyphs).filter fun i => (t i).data.isSome).length

end Cache

/-! ## Runs -/

/-- A call, with its arguments and with what memory answers -/
inductive Call
  | get (font style c : Nat) (hasIndex : Bool)
  | release (index : Int)
  | purge (runningLow veryLow : Bool)
  | suggest (font style c : Nat) (bitmap : List UInt8) (runningLow : Bool) (mem : Option Table)
    (heap : Bool)

/-- The cache in use: the bitmap that was last added for each font, style and character, and what
calls of `GetCacheScaledGlyph` returned that was not released -/
structure Run where
  cache : Cache
  added : Nat → Nat → Nat → Option (List UInt8)
  outstanding : List (Int × Nat × Option (List UInt8))

namespace Run

/-- What a get returned joins those that are outstanding. -/
def hold (r : Run) : Option (Int × Nat) → List (Int × Nat × Option (List UInt8))
  | none => r.outstanding
  | some (index, block) => (index, block, r.cache.bitmaps block) :: r.outstanding

/-- A call -/
def exec (r : Run) : Call → Run
  | .get font style c hasIndex =>
    let got := r.cache.getCacheScaledGlyph font style c hasIndex
    { r with cache := got.2, outstanding := r.hold got.1 }
  | .release index =>
    { r with
      cache := r.cache.releaseCachedScaledGlyph index
      outstanding := r.outstanding.eraseP fun held => held.1 = index }
  | .purge runningLow veryLow =>
    { r with cache := r.cache.purgeScaledGlyphCacheIfNeeded runningLow veryLow }
  | .suggest font style c bitmap runningLow mem heap =>
    let out := r.cache.suggestAddScaledGlyphToCache font style c bitmap runningLow mem heap
    { r with
      cache := out.2
      added := if out.1 then
          Function.update r.added font
            (Function.update (r.added font) style
              (Function.update (r.added font style) c (some bitmap)))
        else r.added }

/-- Nothing is released that no get returned. -/
def Legal (r : Run) : Call → Prop
  | .release index => ∃ held ∈ r.outstanding, held.1 = index
  | _ => True

/-- The table is as the claim of its users: no fault, the count is right, every bitmap is the last
one added for its entry, and those that are outstanding are still there. -/
structure Sound (r : Run) : Prop where
  no_fault : r.cache.fault = false
  count : r.cache.numCached = r.cache.entriesWithData
  last : ∀ t, r.cache.table = some t → ∀ i < numCachedGlyphs, ∀ block, (t i).data = some block →
    (r.cache.bitmaps block).isSome = true ∧
      r.cache.bitmaps block = r.added (t i).fnt (t i).style (t i).ascii
  held : ∀ got ∈ r.outstanding, got.2.2.isSome = true ∧ r.cache.bitmaps got.2.1 = got.2.2

/-- What a get returned is the index and the bitmap of an entry of the glyph, and the bitmap is the
last one added for it. -/
def Answers (r : Run) (font style c : Nat) (got : Int × Nat) : Prop :=
  ∃ t, r.cache.table = some t ∧ 0 ≤ got.1 ∧ got.1 < numCachedGlyphs ∧
    (t got.1.toNat).isFor font style c = true ∧ (t got.1.toNat).data = some got.2 ∧
    r.cache.bitmaps got.2 = r.added font style c

/-- The call leaves the cache sound, and answers rightly. -/
def Right (r : Run) (call : Call) : Prop :=
  (r.exec call).Sound ∧
    match call with
    | .get font style c hasIndex =>
      ∀ got, (r.cache.getCacheScaledGlyph font style c hasIndex).1 = some got →
        r.Answers font style c got
    | _ => True

/-- The table that a suggestion looks at -/
def tableFor (r : Run) (mem : Option Table) : Option Table :=
  match r.cache.table with
  | some t => some t
  | none => mem.map Cache.clearStart

/-- Memory for a new table has no data behind the entries that are cleared. -/
def FreshMemory (r : Run) : Call → Prop
  | .suggest _ _ c _ runningLow mem _ => 0x20 ≤ c → c ≤ 0x7F → runningLow = false →
    r.cache.table = none → ∀ t, mem = some t → ∀ i, 4 ≤ i → i < numCachedGlyphs → (t i).data = none
  | _ => True

/-- No get finds anything, none comes before the table, and there is memory for every bitmap that is
to be added. -/
def Avoids (r : Run) : Call → Prop
  | .get font style c hasIndex => c < 0x20 ∨ 0x7F < c ∨ hasIndex = false ∨
    ∃ t, r.cache.table = some t ∧ ∀ i < numCachedGlyphs, (t i).isFor font style c = false
  | .suggest font style c _ runningLow mem heap => c < 0x20 ∨ 0x7F < c ∨ runningLow = true ∨
    ∀ t, r.tableFor mem = some t →
      heap = true ∨ ∃ i < numCachedGlyphs, (t i).isFor font style c = true
  | _ => True

/-- A step that meets the condition -/
def Step (r r' : Run) : Prop :=
  ∃ call, r.Legal call ∧ r.FreshMemory call ∧ r.Avoids call ∧ r' = r.exec call

def start : Run := ⟨⟨none, 0, fun _ => none, 0, false⟩, fun _ _ _ => none, []⟩

end Run

/-! ## One entry -/

/-- Only the first entry has data, and nobody uses it. -/
structure Table.Single (t : Table) : Prop where
  rest : ∀ i, 1 ≤ i → i < numCachedGlyphs → (t i).data = none
  free : (t 0).inUse = 0

namespace Table.Single

variable {t : Table} {font style c : Nat}

theorem isFor_rest (h : t.Single) {i : Nat} (hi : 1 ≤ i) (hlt : i < numCachedGlyphs) :
    (t i).isFor font style c = false := by
  simp [Entry.isFor, h.rest i hi hlt]

/-- A glyph that is found is found in the first entry. -/
theorem isFor_iff (h : t.Single) :
    (∃ i < numCachedGlyphs, (t i).isFor font style c = true) ↔
      (t 0).isFor font style c = true := by
  constructor
  · rintro ⟨i, hi, hfor⟩
    obtain rfl | hpos := Nat.eq_zero_or_pos i
    · exact hfor
    · rw [h.isFor_rest hpos hi] at hfor
      cases hfor
  · exact fun hfor => ⟨0, by decide, hfor⟩

theorem entriesWithData (h : t.Single) {s : Cache} (hs : s.table = some t) :
    s.entriesWithData = if (t 0).data.isSome then 1 else 0 := by
  have hrest : ((List.range 63).map Nat.succ).filter (fun i => (t i).data.isSome) = [] := by
    refine List.filter_eq_nil_iff.mpr fun i hi => ?_
    obtain ⟨j, hj, rfl⟩ := List.mem_map.mp hi
    have hj := List.mem_range.mp hj
    rw [h.rest j.succ (Nat.succ_pos j) (show j + 1 < 64 by omega)]
    decide
  rw [Cache.entriesWithData, hs]
  simp only
  rw [show numCachedGlyphs = 63 + 1 from rfl, List.range_succ_eq_map, List.filter_cons, hrest]
  split <;> rfl

/-- The loop of a suggestion changes `lru` only, and ends with the first entry. -/
theorem scan (h : t.Single) (font style c n : Nat) (hn : n ≤ numCachedGlyphs) :
    (∀ i, ∃ lru, (Cache.scan font style c t n).table i = { t i with lru }) ∧
      (Cache.scan font style c t n).lowestIndex = 0 ∧
      (Cache.scan font style c t n).foundExactMatch =
        (decide (0 < n) && (t 0).isFor font style c) := by
  induction n with
  | zero => exact ⟨fun i => ⟨(t i).lru, rfl⟩, rfl, rfl⟩
  | succ n ih =>
    obtain ⟨htable, hlowest, hfound⟩ := ih (by omega)
    obtain ⟨lru, hentry⟩ := htable n
    have hround : Cache.scan font style c t (n + 1) =
        Cache.Scan.round font style c (Cache.scan font style c t n) n := by
      rw [Cache.scan, List.range_succ, List.foldl_append]
      rfl
    have hfor (lru : Nat) : Entry.isFor font style c { t n with lru } =
        (t n).isFor font style c := rfl
    rw [hround]
    refine ⟨fun i => ?_, ?_, ?_⟩
    · simp only [Cache.Scan.round]
      by_cases hi : i = n
      · rw [hi, Function.update_self, hentry]
        exact ⟨_, rfl⟩
      · rw [Function.update_of_ne hi]
        exact htable i
    · simp only [Cache.Scan.round, hentry, hlowest]
      obtain rfl | hpos := Nat.eq_zero_or_pos n
      · exact ite_self _
      · simp [h.rest n hpos (by omega)]
    · simp only [Cache.Scan.round, hentry, hfound, hfor]
      obtain rfl | hpos := Nat.eq_zero_or_pos n
      · simp
      · simp [h.isFor_rest hpos (show n < numCachedGlyphs by omega), hpos]

end Table.Single

/-! ## The calls in order -/

/-- The cache is sound, nothing is outstanding, and only the first entry has data. -/
structure Run.Inv (r : Run) : Prop where
  sound : r.Sound
  none_held : r.outstanding = []
  single : ∀ t, r.cache.table = some t → t.Single

namespace Run.Inv

variable {r : Run} {t : Table} {font style c : Nat}

theorem start : Run.start.Inv where
  sound := ⟨rfl, rfl, nofun, nofun⟩
  none_held := rfl
  single := nofun

/-- Without a table nothing is counted. -/
theorem numCached_none (h : r.Inv) (ht : r.cache.table = none) : r.cache.numCached = 0 := by
  rw [h.sound.count, Cache.entriesWithData, ht]

theorem numCached_some (h : r.Inv) (ht : r.cache.table = some t) :
    r.cache.numCached = if (t 0).data.isSome then 1 else 0 := by
  rw [h.sound.count, (h.single t ht).entriesWithData ht]

/-- A cache that is sound with the first entry only -/
theorem of_single {cache : Cache} {added : Nat → Nat → Nat → Option (List UInt8)}
    (hfault : cache.fault = false) (ht : cache.table = some t) (hsingle : t.Single)
    (hcount : cache.numCached = if (t 0).data.isSome then 1 else 0)
    (hlast : ∀ block, (t 0).data = some block → (cache.bitmaps block).isSome = true ∧
      cache.bitmaps block = added (t 0).fnt (t 0).style (t 0).ascii) :
    Run.Inv ⟨cache, added, []⟩ where
  sound := by
    refine ⟨hfault, ?_, ?_, nofun⟩
    · rw [hcount, hsingle.entriesWithData ht]
    · intro t' ht' i hi block hblock
      obtain rfl := Option.some.inj (ht.symm.trans ht')
      obtain rfl | hpos := Nat.eq_zero_or_pos i
      · exact hlast block hblock
      · rw [hsingle.rest i hpos hi] at hblock
        cases hblock
  none_held := rfl
  single := by
    intro t' ht'
    obtain rfl := Option.some.inj (ht.symm.trans ht')
    exact hsingle

/-- The run, with nothing outstanding written out -/
theorem eq_mk (h : r.Inv) : r = ⟨r.cache, r.added, []⟩ := by
  rw [← h.none_held]

theorem live (h : r.Inv) (ht : r.cache.table = some t) {block : Nat}
    (hdata : (t 0).data = some block) : (r.cache.bitmaps block).isSome = true ∧
      r.cache.bitmaps block = r.added (t 0).fnt (t 0).style (t 0).ascii :=
  h.sound.last t ht 0 (by decide) block hdata

theorem freeBitmap_eq (h : r.Inv) (ht : r.cache.table = some t) {block : Nat}
    (hdata : (t 0).data = some block) : r.cache.freeBitmap block =
      { r.cache with bitmaps := Function.update r.cache.bitmaps block none } := by
  obtain ⟨bitmap, hbitmap⟩ := Option.isSome_iff_exists.mp (h.live ht hdata).1
  rw [Cache.freeBitmap, hbitmap]

/-! ### `GetCacheScaledGlyph` -/

theorem get_avoids {hasIndex : Bool} (havoid : r.Avoids (.get font style c hasIndex)) :
    r.cache.getCacheScaledGlyph font style c hasIndex = (none, r.cache) := by
  unfold Cache.getCacheScaledGlyph
  split
  next => rfl
  next hreached =>
    simp only [not_or, Bool.not_eq_true, Bool.not_eq_false'] at hreached
    obtain hc | hc | hindex | ⟨t, ht, hall⟩ := havoid
    · omega
    · omega
    · rw [hindex] at hreached
      cases hreached.2.2
    · have hfind : (List.range numCachedGlyphs).find? (fun i => (t i).isFor font style c) =
          none := by
        refine List.find?_eq_none.mpr fun i hi => ?_
        rw [hall i (List.mem_range.mp hi)]
        decide
      simp only [ht, hfind]

/-- What a get returns for the glyph in the first entry -/
theorem get_found (ht : r.cache.table = some t) (hlow : 0x20 ≤ c) (hhigh : c ≤ 0x7F)
    (hfor : (t 0).isFor font style c = true) :
    ∃ block, (t 0).data = some block ∧
      (r.cache.getCacheScaledGlyph font style c true).1 = some (1, block) := by
  have hreached : ¬ (c < 0x20 ∨ c > 0x7F ∨ (!true) = true) := by
    simp only [Bool.not_true, Bool.false_eq_true, or_false]
    omega
  have hfind : (List.range numCachedGlyphs).find? (fun i => (t i).isFor font style c) =
      some 0 := by
    rw [show numCachedGlyphs = 63 + 1 from rfl, List.range_succ_eq_map, List.find?_cons, hfor]
  have hdata : (t 0).data ≠ none := by
    simp only [Entry.isFor, decide_eq_true_iff] at hfor
    exact hfor.2.2.2
  obtain ⟨block, hblock⟩ := Option.ne_none_iff_exists'.mp hdata
  refine ⟨block, hblock, ?_⟩
  simp only [Cache.getCacheScaledGlyph, if_neg hreached, ht, hfind, Function.update_self, hblock,
    Option.map_some]

/-- The index is not that of the entry. -/
theorem not_answers (h : r.Inv) (block : Nat) : ¬ r.Answers font style c (1, block) := by
  rintro ⟨t, ht, -, -, hone, -⟩
  rw [show ((1 : Int), block).1.toNat = 1 from rfl,
    (h.single t ht).isFor_rest (Nat.le_refl 1) (by decide)] at hone
  cases hone

/-- A get that finds a glyph, or comes before the table, is wrong. -/
theorem get_wrong (h : r.Inv) {hasIndex : Bool} (hright : r.Right (.get font style c hasIndex)) :
    r.Avoids (.get font style c hasIndex) := by
  by_contra havoid
  simp only [Run.Avoids, not_or, not_exists, not_and, Bool.not_eq_false] at havoid
  obtain ⟨hlow, hhigh, rfl, hfound⟩ := havoid
  obtain ⟨hsound, hanswer⟩ := hright
  cases ht : r.cache.table with
  | none =>
    have hreached : ¬ (c < 0x20 ∨ c > 0x7F ∨ (!true) = true) := by
      simp only [Bool.not_true, Bool.false_eq_true, or_false]
      omega
    have hfault := hsound.no_fault
    simp only [Run.exec, Cache.getCacheScaledGlyph, if_neg hreached, ht] at hfault
    cases hfault
  | some t =>
    have hfor : (t 0).isFor font style c = true := by
      rw [← (h.single t ht).isFor_iff]
      have := hfound t ht
      push Not at this
      simpa using this
    obtain ⟨block, -, hgot⟩ := get_found ht (show 0x20 ≤ c by omega) (by omega) hfor
    exact h.not_answers block (hanswer (1, block) hgot)

/-! ### `PurgeScaledGlyphCacheIfNeeded` -/

theorem purgeEntry_of_none {veryLow : Bool} {s : Cache} {i : Nat} (ht : s.table = some t)
    (hi : (t i).data = none) : s.purgeEntry veryLow i = s := by
  simp only [Cache.purgeEntry, ht, hi]

/-- The loop does what its first round does. -/
theorem foldl_purgeEntry (veryLow : Bool) (s : Cache) (n : Nat) (hn : n < numCachedGlyphs)
    (ht : (s.purgeEntry veryLow 0).table = some t)
    (hrest : ∀ i, 1 ≤ i → i < numCachedGlyphs → (t i).data = none) :
    (List.range (n + 1)).foldl (Cache.purgeEntry veryLow) s = s.purgeEntry veryLow 0 := by
  induction n with
  | zero => rfl
  | succ n ih =>
    rw [List.range_succ, List.foldl_append, ih (by omega)]
    exact purgeEntry_of_none ht (hrest (n + 1) (by omega) hn)

theorem purge (h : r.Inv) (runningLow veryLow : Bool) :
    (r.exec (.purge runningLow veryLow)).Inv := by
  unfold Run.exec
  simp only [Cache.purgeScaledGlyphCacheIfNeeded]
  split
  next => exact h
  next hreached =>
    simp only [not_or] at hreached
    cases ht : r.cache.table with
    | none => exact absurd (h.numCached_none ht) hreached.2
    | some t =>
      have hsingle := h.single t ht
      have hcount := h.numCached_some ht
      cases hdata : (t 0).data with
      | none =>
        rw [hdata] at hcount
        exact absurd hcount hreached.2
      | some block =>
        have hone : r.cache.numCached = 1 := by rw [hcount, hdata]; rfl
        by_cases hpurge : (t 0).inUse = 0 ∧ (veryLow = true ∨ (t 0).lru = 0)
        · -- the only bitmap is freed, and with it the table
          have hentry : r.cache.purgeEntry veryLow 0 =
              { r.cache with
                bitmaps := Function.update r.cache.bitmaps block none
                table := some (Function.update t 0 { t 0 with data := none })
                numCached := 0 } := by
            simp only [Cache.purgeEntry, ht, hdata, if_pos hpurge, h.freeBitmap_eq ht hdata,
              Cache.countDown, hone, Nat.reduceAdd, Nat.reduceMod]
          have hloop := foldl_purgeEntry veryLow r.cache 63 (by decide)
            (congrArg Cache.table hentry) fun i hi hlt => by
              rw [Function.update_of_ne (by omega)]
              exact hsingle.rest i hi hlt
          rw [show numCachedGlyphs = 63 + 1 from rfl, hloop, hentry, Cache.dropTable, if_pos rfl]
          exact ⟨⟨h.sound.no_fault, rfl, nofun, by rw [h.none_held]; nofun⟩, h.none_held, nofun⟩
        · have hentry : r.cache.purgeEntry veryLow 0 = r.cache := by
            simp only [Cache.purgeEntry, ht, hdata, if_neg hpurge]
          have hloop := foldl_purgeEntry veryLow r.cache 63 (by decide)
            ((congrArg Cache.table hentry).trans ht) hsingle.rest
          rw [show numCachedGlyphs = 63 + 1 from rfl, hloop, hentry, Cache.dropTable,
            if_neg hreached.2]
          exact h

/-! ### `SuggestAddScaledGlyphToCache` -/

theorem suggest_early {mem : Option Table} {bitmap : List UInt8} {runningLow heap : Bool}
    (h : c < 0x20 ∨ c > 0x7F ∨ runningLow = true) :
    r.cache.suggestAddScaledGlyphToCache font style c bitmap runningLow mem heap =
      (false, r.cache) := if_pos h

theorem suggest_no_table {mem : Option Table} {bitmap : List UInt8} {runningLow heap : Bool}
    (ht : r.tableFor mem = none) :
    r.cache.suggestAddScaledGlyphToCache font style c bitmap runningLow mem heap =
      (false, r.cache) := by
  unfold Run.tableFor at ht
  cases hcache : r.cache.table with
  | some t' =>
    rw [hcache] at ht
    cases ht
  | none =>
    rw [hcache] at ht
    obtain rfl := Option.map_eq_none_iff.mp ht
    simp only [Cache.suggestAddScaledGlyphToCache, hcache, ite_self]

theorem suggest_eq {mem : Option Table} {bitmap : List UInt8} {heap : Bool} (hlow : 0x20 ≤ c)
    (hhigh : c ≤ 0x7F) (ht : r.tableFor mem = some t) :
    r.cache.suggestAddScaledGlyphToCache font style c bitmap false mem heap =
      r.cache.addBitmap t font style c bitmap heap := by
  have hreached : ¬ (c < 0x20 ∨ c > 0x7F ∨ false = true) := by
    simp only [Bool.false_eq_true, or_false]
    omega
  unfold Run.tableFor at ht
  cases hcache : r.cache.table with
  | some t' =>
    rw [hcache] at ht
    obtain rfl := Option.some.inj ht
    simp only [Cache.suggestAddScaledGlyphToCache, if_neg hreached, hcache]
  | none =>
    rw [hcache] at ht
    obtain ⟨mem', rfl, rfl⟩ := Option.map_eq_some_iff.mp ht
    simp only [Cache.suggestAddScaledGlyphToCache, if_neg hreached, hcache]

/-- The table that a suggestion looks at has the first entry only, and the count is that of it. -/
theorem tableFor_single (h : r.Inv) {mem : Option Table} {bitmap : List UInt8} {heap : Bool}
    (hfresh : r.FreshMemory (.suggest font style c bitmap false mem heap)) (hlow : 0x20 ≤ c)
    (hhigh : c ≤ 0x7F) (ht : r.tableFor mem = some t) :
    t.Single ∧ r.cache.numCached = (if (t 0).data.isSome then 1 else 0) ∧
      ∀ block, (t 0).data = some block → (r.cache.bitmaps block).isSome = true ∧
        r.cache.bitmaps block = r.added (t 0).fnt (t 0).style (t 0).ascii := by
  unfold Run.tableFor at ht
  cases hcache : r.cache.table with
  | some t' =>
    rw [hcache] at ht
    obtain rfl := Option.some.inj ht
    exact ⟨h.single t' hcache, h.numCached_some hcache, fun block => h.live hcache⟩
  | none =>
    rw [hcache] at ht
    obtain ⟨mem', rfl, rfl⟩ := Option.map_eq_some_iff.mp ht
    refine ⟨⟨fun i hi hlt => ?_, rfl⟩, h.numCached_none hcache, nofun⟩
    unfold Cache.clearStart
    split
    · rfl
    next hfour => exact hfresh hlow hhigh rfl hcache mem' rfl i (by omega) hlt

/-- An exact match is left as it is. -/
theorem addBitmap_found (hsingle : t.Single) (hfor : (t 0).isFor font style c = true) (s : Cache)
    (bitmap : List UInt8) (heap : Bool) : s.addBitmap t font style c bitmap heap =
      (false, { s with table := some (Cache.scan font style c t numCachedGlyphs).table }) := by
  obtain ⟨-, -, hfound⟩ := hsingle.scan font style c _ (Nat.le_refl _)
  refine if_neg fun hadd => ?_
  rw [hfound, hfor] at hadd
  cases hadd.2

/-- The entry that had a bitmap has none in memory afterwards, and the count is one. -/
theorem makeRoom_eq {s : Cache} {data : Option Nat}
    (hcount : s.numCached = if data.isSome then 1 else 0)
    (hlive : ∀ block, data = some block → (s.bitmaps block).isSome = true) :
    ∃ bitmaps, s.makeRoom data = { s with bitmaps, numCached := 1 } := by
  cases data with
  | none =>
    have hzero : s.numCached = 0 := hcount
    exact ⟨s.bitmaps, by simp only [Cache.makeRoom, Cache.countUp, hzero]⟩
  | some block =>
    have hone : s.numCached = 1 := hcount
    obtain ⟨bitmap, hbitmap⟩ := Option.isSome_iff_exists.mp (hlive block rfl)
    refine ⟨Function.update s.bitmaps block none, ?_⟩
    simp only [Cache.makeRoom, Cache.freeBitmap, hbitmap, hone]

/-- A new bitmap takes the place of the one of the first entry, if there is memory for it. -/
theorem addBitmap_new (hsingle : t.Single) (hfor : (t 0).isFor font style c = false) {s : Cache}
    (hcount : s.numCached = if (t 0).data.isSome then 1 else 0)
    (hlive : ∀ block, (t 0).data = some block → (s.bitmaps block).isSome = true)
    (bitmap : List UInt8) (heap : Bool) :
    ∃ bitmaps, ∃ e : Entry, e.inUse = 0 ∧ s.addBitmap t font style c bitmap heap =
      if !heap then
        (false,
          { s with
            table := some (Function.update (Cache.scan font style c t numCachedGlyphs).table 0
              { e with data := none })
            bitmaps, numCached := 1 })
      else
        (true,
          { s with
            table := some (Function.update (Cache.scan font style c t numCachedGlyphs).table 0
              { e with
                fnt := font, style := style, ascii := c, lru := 0xFFFF, data := some s.allocated })
            bitmaps := Function.update bitmaps s.allocated (some bitmap)
            numCached := 1
            allocated := s.allocated + 1 }) := by
  obtain ⟨htable, hlowest, hfound⟩ := hsingle.scan font style c _ (Nat.le_refl _)
  obtain ⟨lru, hentry⟩ := htable 0
  obtain ⟨bitmaps, hroom⟩ := makeRoom_eq hcount hlive
  have hadd : ({ t 0 with lru } : Entry).inUse = 0 ∧
      (!(Cache.scan font style c t numCachedGlyphs).foundExactMatch) = true := by
    rw [hfound, hfor]
    exact ⟨hsingle.free, rfl⟩
  refine ⟨bitmaps, { t 0 with lru }, hsingle.free, ?_⟩
  simp only [Cache.addBitmap, hlowest, hentry, if_pos hadd, hroom]

/-- The scanned table with another first entry -/
theorem single_update (hsingle : t.Single) (font style c : Nat) {e : Entry}
    (he : e.inUse = 0) :
    Table.Single (Function.update (Cache.scan font style c t numCachedGlyphs).table 0 e) where
  rest := by
    intro i hi hlt
    obtain ⟨htable, -⟩ := hsingle.scan font style c _ (Nat.le_refl _)
    obtain ⟨lru, hentry⟩ := htable i
    rw [Function.update_of_ne (by omega), hentry]
    exact hsingle.rest i hi hlt
  free := by
    rw [Function.update_self]
    exact he

theorem suggest (h : r.Inv) {bitmap : List UInt8} {runningLow : Bool} {mem : Option Table}
    {heap : Bool} (hfresh : r.FreshMemory (.suggest font style c bitmap runningLow mem heap))
    (havoid : r.Avoids (.suggest font style c bitmap runningLow mem heap)) :
    (r.exec (.suggest font style c bitmap runningLow mem heap)).Inv := by
  unfold Run.exec
  simp only [h.none_held]
  by_cases hreached : c < 0x20 ∨ c > 0x7F ∨ runningLow = true
  · rw [suggest_early hreached]
    exact h.eq_mk ▸ h
  · simp only [not_or, Bool.not_eq_true] at hreached
    obtain ⟨hlow, hhigh, rfl⟩ := hreached
    cases ht : r.tableFor mem with
    | none =>
      rw [suggest_no_table ht]
      exact h.eq_mk ▸ h
    | some t =>
      obtain ⟨hsingle, hcount, hlive⟩ := h.tableFor_single hfresh (by omega) (by omega) ht
      rw [suggest_eq (by omega) (by omega) ht]
      cases hfor : (t 0).isFor font style c with
      | true =>
        obtain ⟨htable, -⟩ := hsingle.scan font style c _ (Nat.le_refl _)
        obtain ⟨lru, hentry⟩ := htable 0
        have hscan := single_update hsingle font style c
          (show ({ t 0 with lru } : Entry).inUse = 0 from hsingle.free)
        rw [← hentry, Function.update_eq_self] at hscan
        rw [addBitmap_found hsingle hfor]
        -- only the `lru` of the entry has changed
        refine of_single h.sound.no_fault rfl hscan ?_ ?_
        · rw [hentry]
          exact hcount
        · rw [hentry]
          exact hlive
      | false =>
        obtain ⟨bitmaps, e, he, hadd⟩ := addBitmap_new hsingle hfor hcount
          (fun block hblock => (hlive block hblock).1) bitmap heap
        -- without memory for the bitmap the count would be one too many
        obtain rfl : heap = true := by
          obtain hc | hc | hc | hall := havoid
          · omega
          · omega
          · cases hc
          · obtain hheap | hmatch := hall t ht
            · exact hheap
            · rw [hsingle.isFor_iff, hfor] at hmatch
              cases hmatch
        rw [hadd]
        refine of_single h.sound.no_fault rfl (single_update hsingle font style c he) ?_ ?_
        · rw [Function.update_self]
          rfl
        · intro block hblock
          rw [Function.update_self] at hblock ⊢
          obtain rfl := Option.some.inj hblock
          simp

/-- A glyph that was added is found in the first entry. -/
theorem suggest_adds (h : r.Inv) {bitmap : List UInt8} {mem : Option Table}
    (hfresh : r.FreshMemory (.suggest font style c bitmap false mem true)) (hlow : 0x20 ≤ c)
    (hhigh : c ≤ 0x7F) (ht : r.tableFor mem = some t)
    (hfor : (t 0).isFor font style c = false) :
    ∃ t', (r.exec (.suggest font style c bitmap false mem true)).cache.table = some t' ∧
      (t' 0).isFor font style c = true := by
  obtain ⟨hsingle, hcount, hlive⟩ := h.tableFor_single hfresh hlow hhigh ht
  obtain ⟨bitmaps, e, he, hadd⟩ := addBitmap_new hsingle hfor hcount
    (fun block hblock => (hlive block hblock).1) bitmap true
  refine ⟨Function.update (Cache.scan font style c t numCachedGlyphs).table 0
    { e with
      fnt := font, style := style, ascii := c, lru := 0xFFFF, data := some r.cache.allocated },
    ?_, ?_⟩
  · simp only [Run.exec, suggest_eq hlow hhigh ht, hadd]
    rfl
  · rw [Function.update_self]
    simp [Entry.isFor]

/-- A bitmap for which there is no memory is counted. -/
theorem suggest_wrong (h : r.Inv) {bitmap : List UInt8} {runningLow : Bool} {mem : Option Table}
    {heap : Bool} (hfresh : r.FreshMemory (.suggest font style c bitmap runningLow mem heap))
    (hright : r.Right (.suggest font style c bitmap runningLow mem heap)) :
    r.Avoids (.suggest font style c bitmap runningLow mem heap) := by
  by_contra havoid
  simp only [Run.Avoids, not_or, Bool.not_eq_true, not_forall] at havoid
  obtain ⟨hlow, hhigh, rfl, t, ht, rfl, hmatch⟩ := havoid
  obtain ⟨hsingle, hcount, hlive⟩ := h.tableFor_single hfresh (by omega) (by omega) ht
  have hfor : (t 0).isFor font style c = false := by
    rw [← Bool.not_eq_true, ← hsingle.isFor_iff]
    exact hmatch
  obtain ⟨bitmaps, e, he, hadd⟩ := addBitmap_new hsingle hfor hcount
    (fun block hblock => (hlive block hblock).1) bitmap false
  have hwrong := hright.1.count
  simp only [Run.exec, suggest_eq (show 0x20 ≤ c by omega) (show c ≤ 0x7F by omega) ht, hadd,
    Bool.not_false, if_true] at hwrong
  have hempty : ({ e with data := none } : Entry).inUse = 0 := he
  rw [(single_update hsingle font style c hempty).entriesWithData rfl, Function.update_self]
    at hwrong
  cases hwrong

end Run.Inv

/-! ## Runs that avoid what goes wrong -/

namespace Run

variable {r : Run} {call : Call}

theorem Inv.exec (h : r.Inv) (hlegal : r.Legal call) (hfresh : r.FreshMemory call)
    (havoid : r.Avoids call) : (r.exec call).Inv := by
  cases call with
  | get font style c hasIndex =>
    unfold Run.exec
    simp only [Inv.get_avoids havoid]
    exact h
  | release index =>
    obtain ⟨held, hheld, -⟩ := hlegal
    rw [h.none_held] at hheld
    cases hheld
  | purge runningLow veryLow => exact h.purge runningLow veryLow
  | suggest font style c bitmap runningLow mem heap => exact h.suggest hfresh havoid

theorem Inv.right (h : r.Inv) (hlegal : r.Legal call) (hfresh : r.FreshMemory call)
    (havoid : r.Avoids call) : r.Right call := by
  refine ⟨(h.exec hlegal hfresh havoid).sound, ?_⟩
  cases call with
  | get font style c hasIndex =>
    simp only [Inv.get_avoids havoid]
    nofun
  | release index => trivial
  | purge runningLow veryLow => trivial
  | suggest font style c bitmap runningLow mem heap => trivial

theorem Inv.avoids (h : r.Inv) (hfresh : r.FreshMemory call) (hright : r.Right call) :
    r.Avoids call := by
  cases call with
  | get font style c hasIndex => exact h.get_wrong hright
  | release index => trivial
  | purge runningLow veryLow => trivial
  | suggest font style c bitmap runningLow mem heap => exact h.suggest_wrong hfresh hright

theorem inv_of_reaches (h : Reaches Step start r) : r.Inv := by
  refine h.invariant Inv.start fun s s' hs hstep => ?_
  obtain ⟨call, hlegal, hfresh, havoid, rfl⟩ := hstep
  exact hs.exec hlegal hfresh havoid

/-- In a run in which no get finds a glyph or comes before the table, memory for a new table has no
data in it, and there is memory for every bitmap to be added, the cache is sound in every state. The
first call that breaks this is wrong: after it the cache is not sound, or it is a get that returned
the index of another entry. -/
theorem glyphCache_sound (r : Run) (h : Reaches Step start r) :
    r.Sound ∧ ∀ call, r.Legal call → r.FreshMemory call → (r.Right call ↔ r.Avoids call) := by
  have hinv := inv_of_reaches h
  exact ⟨hinv.sound, fun call hlegal hfresh =>
    ⟨hinv.avoids hfresh, hinv.right hlegal hfresh⟩⟩

/-- The first glyph that is added, with memory of zeros -/
def firstAdded : Run :=
  start.exec (.suggest 1 2 65 [170] false (some fun _ => Entry.zero) true)

theorem freshMemory_zero (r : Run) (font style c : Nat) (bitmap : List UInt8) (heap : Bool) :
    r.FreshMemory (.suggest font style c bitmap false (some fun _ => Entry.zero) heap) := by
  rintro - - - - t ht i - -
  obtain rfl := Option.some.inj ht
  rfl

theorem reaches_firstAdded : Reaches Step start firstAdded := by
  refine .single ⟨.suggest 1 2 65 [170] false (some fun _ => Entry.zero) true, trivial, ?_, ?_, rfl⟩
  · exact freshMemory_zero start 1 2 65 [170] true
  · exact .inr (.inr (.inr fun _ _ => .inl rfl))

theorem glyphCache_sound_firstAdded : firstAdded.Sound :=
  (glyphCache_sound firstAdded reaches_firstAdded).1

/-- A get of the first glyph returns the index 1, and the glyph is in the entry 0. -/
theorem getCacheScaledGlyph_other_index :
    ∃ block, (firstAdded.cache.getCacheScaledGlyph 1 2 65 true).1 = some (1, block) ∧
      ¬ firstAdded.Answers 1 2 65 (1, block) := by
  have hfresh := freshMemory_zero start 1 2 65 [170] true
  obtain ⟨t, ht, hfor⟩ := Inv.start.suggest_adds hfresh (by decide) (by decide) rfl rfl
  obtain ⟨block, -, hgot⟩ := Inv.get_found ht (by decide) (by decide) hfor
  exact ⟨block, hgot, (inv_of_reaches reaches_firstAdded).not_answers block⟩

end Run

end Nolrem.Typeface.GlyphCache
