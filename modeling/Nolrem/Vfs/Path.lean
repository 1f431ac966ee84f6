import Nolrem.Vfs.Name

/-!
# Paths

`GetVnodeFromPath`, `OpenFile` and `RemoveFileOrDirectory` of `kernel/vfs/vfs.c`. The answers of the
drivers, of `AcquireMutex` and of `AllocHeap` come from an environment; a driver may answer
differently each time it is called.
-/

namespace Nolrem.Vfs

/-! ## The code -/

/-- `MAX_PATH_LENGTH` -/
def maxPathLength : Nat := 2000

/-- `IsRelative` -/
def isRelative (path : List Char) : Bool := path.all fun c => c ≠ ':'

/-- `GetPathComponent`: the component and the rest of the path, or an error -/
def getPathComponent (path : List Char) (maxLen : Nat) (delimiter : Char) :
    Except Nat (Name × List Char) :=
  let out := path.takeWhile fun c => c ≠ delimiter
  if maxLen ≤ out.length then .error enametoolong
  else if checkValidComponentName out ≠ 0 then .error (checkValidComponentName out)
  else .ok (out, ((path.dropWhile fun c => c ≠ delimiter).drop 1).dropWhile fun c => c = '/')

/-- The loop of `GetFinalPathComponent`; `out` is what was copied last. -/
def finalComponent : Nat → List Char → Name → Except Nat Name
  | _, [], out => .ok out
  | 0, _ :: _, _ => .error einval
  | fuel + 1, path, _ =>
    match getPathComponent path maxComponentLength '/' with
    | .error status => .error status
    | .ok (out, rest) => finalComponent fuel rest out

/-- `GetFinalPathComponent` -/
def getFinalPathComponent (path : List Char) : Except Nat Name :=
  if isRelative path then finalComponent path.length path []
  else
    match getPathComponent path maxComponentLength ':' with
    | .error status => .error status
    | .ok (out, rest) => finalComponent path.length rest out

/--
Everything outside: each call has its number, and a driver returns a status and, with status 0, a
vnode. `mounted` is the vnode behind the file of a mount point.
-/
structure VfsEnv where
  acquireMutex : Nat → Nat
  mounted : Name → Option Nat
  follow : Nat → Nat → Name → Nat × Nat
  create : Nat → Nat → Name → Nat × Nat
  checkOpen : Nat → Nat → Nat
  truncate : Nat → Nat → Nat
  unlink : Nat → Nat → Nat
  isDir : Nat → Bool
  isReg : Nat → Bool
  nlink : Nat → Nat
  allocFile : Bool

/-- `calls` counts the calls of the drivers, and `creates` lists those of `VnodeCreate`. -/
structure PathState where
  refs : Nat → Nat
  calls : Nat
  creates : List (Nat × Name)

/-- A call of a driver after which the reference to its vnode is dropped. -/
def PathState.dropped (st : PathState) (node : Nat) : PathState :=
  { st with
    refs := derefObject st.refs node
    calls := st.calls + 1 }

/-- A call of a driver that returned a vnode with a reference. -/
def PathState.returned (st : PathState) (node : Nat) : PathState :=
  { st with
    refs := refObject st.refs node
    calls := st.calls + 1 }

/-- The loop of `GetVnodeFromPath`, at most `fuel` times around -/
def walk (env : VfsEnv) : Nat → PathState → Nat → List Char → PathState × Except Nat Nat
  | _, st, current, [] => (st, .ok current)
  | 0, st, _, _ :: _ => (st, .error einval)
  | fuel + 1, st, current, path =>
    match getPathComponent path maxComponentLength '/' with
    | .error status => ({ st with refs := derefObject st.refs current }, .error status)
    | .ok (component, rest) =>
      if component = ['.'] then walk env fuel st current rest
      else
        let next := env.follow st.calls current component
        if next.1 ≠ 0 then (st.dropped current, .error next.1)
        else walk env fuel (st.returned next.2) next.2 rest

/-- The start of `GetVnodeFromPath`: the vnode to start at, and the rest of the path. -/
def startOfPath (env : VfsEnv) (calls : Nat) (path : List Char) : Except Nat (Nat × List Char) :=
  if path = [] then .error einval
  else if maxPathLength ≤ path.length then .error enametoolong
  else if isRelative path then .error enodev
  else
    match getPathComponent path maxComponentLength ':' with
    | .error status => .error status
    | .ok (component, rest) =>
      if env.acquireMutex calls ≠ 0 then .error (env.acquireMutex calls)
      else
        match env.mounted component with
        | none => .error enodev
        | some node => .ok (node, rest)

/-- `GetVnodeFromPath` -/
def getVnodeFromPath (env : VfsEnv) (st : PathState) (path : List Char) (wantParent : Bool) :
    PathState × Except Nat Nat :=
  match startOfPath env st.calls path with
  | .error status => ({ st with calls := st.calls + 1 }, .error status)
  | .ok (node, rest) =>
    match walk env path.length (st.returned node) node rest with
    | (st, .error status) => (st, .error status)
    | (st, .ok current) =>
      if wantParent then
        let parent := env.follow st.calls current ['.', '.']
        if parent.1 ≠ 0 then (st.dropped current, .error parent.1)
        else
          ({ st.returned parent.2 with
              refs := derefObject (refObject st.refs parent.2) current }, .ok parent.2)
      else (st, .ok current)

/-- The flags of `OpenFile`; `accmode` is `flags & O_ACCMODE`. -/
structure OpenFlags where
  creat : Bool
  excl : Bool
  trunc : Bool
  accmode : Nat
deriving DecidableEq, Repr

/-- `can_write` -/
def OpenFlags.canWrite (flags : OpenFlags) : Bool := flags.accmode ≠ 0

/--
The ways out of `OpenFile`. `unset` is the use of a pointer that no call has set, and `opened` comes
with whether there was memory for the file.
-/
inductive OpenExit where
  | invalid
  | lookupFailed (status : Nat)
  | exclusive (found : Bool)
  | nameFailed (status : Nat)
  | createFailed (status : Nat)
  | checkFailed (status : Nat)
  | directory
  | truncated (status : Nat)
  | opened (node : Nat) (file : Bool)
  | unset
deriving DecidableEq, Repr

/-- What `OpenFile` returns. -/
def OpenExit.status : OpenExit → Option Nat
  | invalid => some einval
  | lookupFailed status => some status
  | exclusive _ => some eexist
  | nameFailed status => some status
  | createFailed status => some status
  | checkFailed status => some status
  | directory => some eisdir
  | truncated status => some status
  | opened _ _ => some 0
  | unset => none

/-- `OpenFile` from `VnodeCheckOpen` on -/
def openVnode (env : VfsEnv) (st : PathState) (node : Nat) (flags : OpenFlags) :
    PathState × OpenExit :=
  let status := env.checkOpen st.calls node
  if status ≠ 0 then (st.dropped node, .checkFailed status)
  else if env.isDir node && flags.canWrite then (st.dropped node, .directory)
  else if flags.trunc && env.isReg node then
    if flags.canWrite then
      if env.truncate (st.calls + 1) node ≠ 0 then
        (st, .truncated (env.truncate (st.calls + 1) node))
      else (st, .truncated enosys)
    else (st, .truncated einval)
  else if env.allocFile then
    ({ st with refs := refObject st.refs node }, .opened node true)
  else (st, .opened node false)

/-- The part of `OpenFile` that creates the file -/
def createAndOpen (env : VfsEnv) (st : PathState) (path : List Char) (flags : OpenFlags) :
    PathState × OpenExit :=
  match getVnodeFromPath env st path true with
  | (st, .error status) => (st, .lookupFailed status)
  | (st, .ok node) =>
    match getFinalPathComponent path with
    | .error status => (st, .nameFailed status)
    | .ok name =>
      let child := env.create st.calls node name
      let st := { st with creates := (node, name) :: st.creates }
      if child.1 ≠ 0 then (st.dropped node, .createFailed child.1)
      else
        openVnode env { st.returned child.2 with
          refs := derefObject (refObject st.refs child.2) node } child.2 flags

/-- `OpenFile`, where `out` says that it is not `NULL` -/
def openFile (env : VfsEnv) (st : PathState) (path : Option (List Char)) (out : Bool)
    (flags : OpenFlags) : PathState × OpenExit :=
  match path with
  | none => (st, .invalid)
  | some path =>
    if out = false ∨ path = [] then (st, .invalid)
    else
      match getVnodeFromPath env st path false with
      | (st, .ok node) =>
        if flags.creat && flags.excl then (st, .exclusive true) else openVnode env st node flags
      | (st, .error status) =>
        if flags.creat then
          if status = enoent then createAndOpen env st path flags
          else if flags.excl then (st, .exclusive false)
          else (st, .unset)
        else (st, .lookupFailed status)

section Components

variable {path rest : List Char} {component : Name} {delimiter : Char} {maxLen : Nat}

end Components

/-! ## References -/

section References

variable {env : VfsEnv} {st : PathState}

end References

/-- Every mount point is vnode 1, and from each vnode every name leads to the next one. -/
def chainEnv : VfsEnv :=
  { acquireMutex := fun _ => 0, mounted := fun _ => some 1
    follow := fun _ node _ => (0, node + 1), create := fun _ _ _ => (0, 9)
    checkOpen := fun _ _ => 0, truncate := fun _ _ => 0, unlink := fun _ _ => 0
    isDir := fun node => node = 3, isReg := fun _ => true, nlink := fun _ => 1, allocFile := true }

def noReferences : PathState := { refs := fun _ => 0, calls := 0, creates := [] }

/-- The answers do not change while a call is going on. -/
structure Steady (env : VfsEnv) : Prop where
  follow : ∀ k, env.follow k = env.follow 0
  acquireMutex : ∀ k, env.acquireMutex k = env.acquireMutex 0

/-- All components of a path, `fuel` at most -/
def components : Nat → List Char → Except Nat (List Name)
  | _, [] => .ok []
  | 0, _ :: _ => .error einval
  | fuel + 1, path =>
    match getPathComponent path maxComponentLength '/' with
    | .error status => .error status
    | .ok (component, rest) => (components fuel rest).map fun names => component :: names

/-- What a list of components leads to. -/
def resolve (env : VfsEnv) : Nat → List Name → Except Nat Nat
  | node, [] => .ok node
  | node, name :: names =>
    if name = ['.'] then resolve env node names
    else if (env.follow 0 node name).1 ≠ 0 then .error (env.follow 0 node name).1
    else resolve env (env.follow 0 node name).2 names

/-- The directory part of the path leads to `dir`, and `name`, the last component, is not there. -/
def MissingLast (env : VfsEnv) (path : List Char) (dir : Nat) (name : Name) : Prop :=
  ∃ root rest names, startOfPath env 0 path = .ok (root, rest) ∧
    components path.length rest = .ok (names ++ [name]) ∧ resolve env root names = .ok dir ∧
    name ≠ ['.'] ∧ (env.follow 0 dir name).1 = enoent

section Creating

variable {env : VfsEnv} {st : PathState} {path : List Char}

theorem walk_creates (env : VfsEnv) (fuel : Nat) (st : PathState) (current : Nat) (path : List Char) :
    (walk env fuel st current path).1.creates = st.creates := by
  induction fuel generalizing st current path with
  | zero => cases path <;> rfl
  | succ fuel ih =>
    cases path with
    | nil => rfl
    | cons c path =>
      unfold walk
      split
      · rfl
      · split
        · exact ih ..
        · simp only
          split
          · rfl
          · exact ih ..

theorem getVnodeFromPath_creates (env : VfsEnv) (st : PathState) (path : List Char) (wantParent : Bool) :
    (getVnodeFromPath env st path wantParent).1.creates = st.creates := by
  unfold getVnodeFromPath
  split
  · rfl
  · next node rest _ =>
    have hwalk := walk_creates env path.length (st.returned node) node rest
    split
    · next hres =>
      rw [hres] at hwalk
      exact hwalk
    · next hres =>
      rw [hres] at hwalk
      simp only
      split
      · split <;> exact hwalk
      · exact hwalk

/-- In a steady environment a walk depends only on where it starts. -/
theorem walk_steady (hsteady : Steady env) (fuel : Nat) (st st' : PathState) (current : Nat)
    (path : List Char) :
    (walk env fuel st current path).2 = (walk env fuel st' current path).2 := by
  induction fuel generalizing st st' current path with
  | zero => cases path <;> rfl
  | succ fuel ih =>
    cases path with
    | nil => rfl
    | cons c path =>
      unfold walk
      simp only [hsteady.follow]
      split
      · rfl
      · split
        · exact ih ..
        · split
          · rfl
          · exact ih ..

theorem startOfPath_steady (hsteady : Steady env) (calls : Nat) (path : List Char) :
    startOfPath env calls path = startOfPath env 0 path := by
  unfold startOfPath
  simp only [hsteady.acquireMutex calls]

/-- A lookup that fails fails again, and also when it is for the parent. -/
theorem getVnodeFromPath_error (hsteady : Steady env) {status : Nat}
    (h : (getVnodeFromPath env st path false).2 = .error status) (st' : PathState) :
    (getVnodeFromPath env st' path true).2 = .error status := by
  unfold getVnodeFromPath at h ⊢
  rw [startOfPath_steady hsteady] at h ⊢
  cases hstart : startOfPath env 0 path with
  | error e =>
    rw [hstart] at h
    exact h
  | ok found =>
    obtain ⟨node, rest⟩ := found
    rw [hstart] at h
    simp only at h ⊢
    have hsame := walk_steady hsteady path.length (st.returned node) (st'.returned node) node rest
    cases hwalk : walk env path.length (st.returned node) node rest with
    | mk st₁ res =>
      cases hwalk' : walk env path.length (st'.returned node) node rest with
      | mk st₂ res' =>
        rw [hwalk, hwalk'] at hsame
        simp only at hsame
        subst hsame
        rw [hwalk] at h
        cases res with
        | error e => exact h
        | ok current => exact absurd h (by simp)

theorem walk_resolve (hsteady : Steady env) (fuel : Nat) (st : PathState) (current : Nat)
    (path : List Char) {names : List Name} (h : components fuel path = .ok names) :
    (walk env fuel st current path).2 = resolve env current names := by
  induction fuel generalizing st current path names with
  | zero =>
    cases path with
    | nil =>
      cases h
      rfl
    | cons c path => cases h
  | succ fuel ih =>
    cases path with
    | nil =>
      cases h
      rfl
    | cons c path =>
      unfold components at h
      unfold walk
      simp only [hsteady.follow]
      cases hcomp : getPathComponent (c :: path) maxComponentLength '/' with
      | error status =>
        rw [hcomp] at h
        cases h
      | ok found =>
        obtain ⟨component, rest⟩ := found
        rw [hcomp] at h
        simp only at h ⊢
        cases hrest : components fuel rest with
        | error status =>
          rw [hrest] at h
          cases h
        | ok names' =>
          rw [hrest] at h
          cases h
          unfold resolve
          split
          · exact ih _ _ _ hrest
          · split
            · rfl
            · exact ih _ _ _ hrest

theorem resolve_append (current : Nat) (names names' : List Name) {node : Nat}
    (h : resolve env current names = .ok node) :
    resolve env current (names ++ names') = resolve env node names' := by
  induction names generalizing current with
  | nil =>
    cases h
    rfl
  | cons name names ih =>
    simp only [List.cons_append, resolve] at h ⊢
    split at h
    · next hdot =>
      rw [if_pos hdot]
      exact ih _ h
    · next hdot =>
      rw [if_neg hdot]
      split at h
      · cases h
      · next hstatus =>
        rw [if_neg hstatus]
        exact ih _ h

theorem MissingLast.lookup (hsteady : Steady env) (st : PathState) {dir : Nat} {name : Name}
    (h : MissingLast env path dir name) :
    (getVnodeFromPath env st path false).2 = .error enoent := by
  obtain ⟨root, rest, names, hstart, hnames, hdir, hdot, hmissing⟩ := h
  have hres := walk_resolve hsteady path.length (st.returned root) root rest hnames
  rw [resolve_append root names [name] hdir] at hres
  have hlast : resolve env dir [name] = .error enoent := by
    unfold resolve
    rw [if_neg hdot, hmissing]
    rfl
  rw [hlast] at hres
  unfold getVnodeFromPath
  rw [startOfPath_steady hsteady, hstart]
  simp only
  cases hwalk : walk env path.length (st.returned root) root rest with
  | mk st' res =>
    rw [hwalk] at hres
    simp only at hres
    subst hres
    rfl

theorem openVnode_ne_unset (st : PathState) (node : Nat) (flags : OpenFlags) :
    (openVnode env st node flags).2 ≠ .unset := by
  unfold openVnode
  simp only
  split
  · simp
  · split
    · simp
    · split
      · split
        · split <;> simp
        · simp
      · split <;> simp

/-- What `OpenFile` with `O_CREAT` is to do. -/
structure CreatesMissing (env : VfsEnv) (st : PathState) (path : List Char) (flags : OpenFlags) :
    Prop where
  created : ∀ dir name, MissingLast env path dir name →
    (openFile env st (some path) true flags).1.creates = (dir, name) :: st.creates ∧
      ∃ k, (openFile env st (some path) true flags).2 = .opened (env.create k dir name).2 true
  other : ∀ status, (getVnodeFromPath env st path false).2 = .error status →
    (¬∃ dir name, MissingLast env path dir name) →
    (openFile env st (some path) true flags).2.status = some status
  set : (openFile env st (some path) true flags).2 ≠ .unset

/--
**When `O_CREAT` does what it should.** Exactly if the path can be looked up, or it fails with
`ENOENT` already in its directory part, or with `EEXIST` under `O_EXCL`. A last component that is
missing is never created: the lookup of its parent looks for it again.
-/
theorem open_creates_missing_iff (hsteady : Steady env) (st : PathState) (flags : OpenFlags)
    (hcreat : flags.creat = true) (habsolute : isRelative path = false) :
    CreatesMissing env st path flags ↔
      (∃ node, (getVnodeFromPath env st path false).2 = .ok node) ∨
      ((getVnodeFromPath env st path false).2 = .error enoent ∧
        ¬∃ dir name, MissingLast env path dir name) ∨
      ((getVnodeFromPath env st path false).2 = .error eexist ∧ flags.excl = true) := by
  have hne : path ≠ [] := by
    rintro rfl
    cases habsolute
  have hlookup := fun dir name (h : MissingLast env path dir name) =>
    h.lookup hsteady st
  have hagain : ∀ status, (getVnodeFromPath env st path false).2 = .error status → ∀ st',
      (getVnodeFromPath env st' path true).2 = .error status :=
    fun _ h => getVnodeFromPath_error hsteady h
  have hopen : openFile env st (some path) true flags =
      match getVnodeFromPath env st path false with
      | (st, .ok node) =>
        if flags.creat && flags.excl then (st, .exclusive true) else openVnode env st node flags
      | (st, .error status) =>
        if flags.creat then
          if status = enoent then createAndOpen env st path flags
          else if flags.excl then (st, .exclusive false)
          else (st, .unset)
        else (st, .lookupFailed status) := by
    unfold openFile
    simp only [Bool.true_eq_false, hne, or_self, if_false]
  have hcreates := getVnodeFromPath_creates env st path false
  cases hget : getVnodeFromPath env st path false with
  | mk st' res =>
    rw [hget] at hlookup hagain hopen hcreates
    simp only [hcreat, if_true, Bool.true_and] at hopen hlookup hagain hcreates ⊢
    cases res with
    | ok node =>
      refine iff_of_true ⟨fun dir name h => ?_, fun status h => ?_, ?_⟩ (.inl ⟨node, rfl⟩)
      · exact absurd (hlookup dir name h) (by simp)
      · rw [hget] at h
        exact absurd h (by simp)
      · rw [hopen]
        simp only
        split
        · simp
        · exact openVnode_ne_unset st' node flags
    | error status =>
      by_cases henoent : status = enoent
      · subst henoent
        -- the lookup of the parent fails as the first one did
        have hfailed : createAndOpen env st' path flags =
            ((getVnodeFromPath env st' path true).1, .lookupFailed enoent) := by
          have hparent := hagain enoent rfl st'
          unfold createAndOpen
          cases hget' : getVnodeFromPath env st' path true with
          | mk st'' res =>
            rw [hget'] at hparent
            simp only at hparent
            subst hparent
            rfl
        simp only [if_true, hfailed] at hopen
        by_cases hmissing : ∃ dir name, MissingLast env path dir name
        · refine iff_of_false (fun h => ?_) ?_
          · obtain ⟨dir, name, hm⟩ := hmissing
            have hcons := (h.created dir name hm).1
            rw [hopen] at hcons
            simp only at hcons
            rw [getVnodeFromPath_creates, hcreates] at hcons
            exact absurd (congrArg List.length hcons) (by simp)
          · rintro (⟨node, h⟩ | ⟨-, h⟩ | ⟨h, -⟩)
            · cases h
            · exact h hmissing
            · cases h
        · refine iff_of_true ⟨fun dir name h => absurd ⟨dir, name, h⟩ hmissing,
            fun status h _ => ?_, ?_⟩ (.inr (.inl ⟨rfl, hmissing⟩))
          · rw [hget] at h
            cases h
            rw [hopen]
            rfl
          · rw [hopen]
            simp
      · have hnone : ¬∃ dir name, MissingLast env path dir name := by
          rintro ⟨dir, name, h⟩
          exact henoent (Except.error.inj (hlookup dir name h))
        simp only [henoent, if_false] at hopen
        cases hexcl : flags.excl with
        | false =>
          rw [hexcl] at hopen
          refine iff_of_false (fun h => h.set (by rw [hopen]; rfl)) ?_
          rintro (⟨node, h⟩ | ⟨h, -⟩ | ⟨-, h⟩)
          · cases h
          · exact henoent (Except.error.inj h)
          · cases h
        | true =>
          rw [hexcl] at hopen
          simp only [if_true] at hopen
          constructor
          · intro h
            have hstatus := h.other status (by rw [hget]) hnone
            rw [hopen] at hstatus
            exact .inr (.inr ⟨congrArg _ (Option.some.inj hstatus).symm, rfl⟩)
          · rintro (⟨node, h⟩ | ⟨h, -⟩ | ⟨h, -⟩)
            · cases h
            · exact absurd (Except.error.inj h) henoent
            · refine ⟨fun dir name hm => absurd ⟨dir, name, hm⟩ hnone, fun status' h' _ => ?_, ?_⟩
              · rw [hget] at h'
                rw [hopen, ← Except.error.inj h', Except.error.inj h]
                rfl
              · rw [hopen]
                simp

end Creating

theorem steady_chainEnv : Steady chainEnv := ⟨fun _ => rfl, fun _ => rfl⟩

theorem open_creates_missing_iff_found :
    CreatesMissing chainEnv noReferences ['h', 'd', ':', 'a'] ⟨true, false, false, 0⟩ :=
  (open_creates_missing_iff steady_chainEnv noReferences ⟨true, false, false, 0⟩ rfl
    (by decide)).mpr (.inl ⟨2, by decide⟩)

/-- As above, but nothing is found. -/
def emptyEnv : VfsEnv := { chainEnv with follow := fun _ _ _ => (enoent, 0) }

/-- `OpenFile("hd:a", O_CREAT)` fails, where `a` is not there, and creates nothing. -/
theorem open_does_not_create :
    MissingLast emptyEnv ['h', 'd', ':', 'a'] 1 ['a'] ∧
      (openFile emptyEnv noReferences (some ['h', 'd', ':', 'a']) true
        ⟨true, false, false, 0⟩).1.creates = [] ∧
      ¬CreatesMissing emptyEnv noReferences ['h', 'd', ':', 'a'] ⟨true, false, false, 0⟩ := by
  have hmissing : MissingLast emptyEnv ['h', 'd', ':', 'a'] 1 ['a'] :=
    ⟨1, ['a'], [], by decide, by decide, rfl, by decide, rfl⟩
  have hcreates : (openFile emptyEnv noReferences (some ['h', 'd', ':', 'a']) true
      ⟨true, false, false, 0⟩).1.creates = [] := by decide
  refine ⟨hmissing, hcreates, fun h => ?_⟩
  rw [(h.created 1 ['a'] hmissing).1] at hcreates
  cases hcreates

end Nolrem.Vfs
