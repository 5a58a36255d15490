import AgentGrid.Foundation.Mounts

/-!
# The mounts of a bubblewrap sandbox

Both builders of the command line bind the host root read-only, mask the private
directories with empty file systems, and bind the worktree, the program and the
directories of `PATH` over the masks.  Paths of the host are lists of components.
-/

namespace AgentGrid.Node

open AgentGrid.Foundation

abbrev Text : Type := List Char

abbrev Path : Type := List Text

def isAbsolute (text : Text) : Bool := text.head? == some '/'

/-- `Path::components`, without the root and the dots that name nothing. -/
def components (text : Text) : Path :=
  (text.splitOn '/').filter fun component => component != [] && component != ['.']

def display (path : Path) : Text := path.flatMap fun component => '/' :: component

/-! ## The host -/

structure Host where
  currentDir : Path
  /-- The real place of an absolute path, if it exists. -/
  canonicalize : Path → Option Path
  isDir : Path → Bool
  isFile : Path → Bool
  /-- `resolve_in_path`. -/
  resolveInPath : Text → Option Text
  leaf : ∀ a b, isFile a = true → isFile b = true → a <+: b → a = b

def Host.absolute (host : Host) (text : Text) : Path :=
  if isAbsolute text then components text else host.currentDir ++ components text

def Host.realpath (host : Host) (text : Text) : Option Path :=
  if text = [] then none else host.canonicalize (host.absolute text)

structure Environment where
  /-- `AGENTGRID_DATA_DIR`. -/
  dataDir : Option Text := none
  /-- `HOME`. -/
  home : Option Text := none
  /-- `PATH`. -/
  path : Option Text := none
  /-- `AGENTGRID_SANDBOX_NETWORK`. -/
  sandboxNetwork : Option Text := none
  /-- `AGENTGRID_RUN_AS_USER`, where it is a number and an optional group. -/
  runAs : Option (Text × Option Text) := none

def Environment.dataPath (env : Environment) (host : Host) : Path :=
  host.absolute (env.dataDir.getD "./agentgrid-data".toList)

def Environment.pathDirs (env : Environment) : List Text :=
  match env.path with
  | none => []
  | some text => text.splitOn ':'

structure Options where
  networkMode : Option Text
  readOnlyWorktree : Bool

/-! ## Arguments -/

inductive Arg
  | dieWithParent
  | newSession
  | unshareAll
  | shareNet
  | roBind (source target : Path)
  | bind (source target : Path)
  | dev (target : Path)
  | proc (target : Path)
  | tmpfs (target : Path)
  | chdir (path : Path)
  | uid (user : Text)
  | gid (group : Text)
  /-- The two dashes before the command. -/
  | terminator
  | word (text : Text)
deriving DecidableEq

/-- What is seen below the target of a mount. -/
inductive Shown
  | host (source : Path)
  | empty
  | devices
  | processes
deriving DecidableEq

def Arg.mount : Arg → Option (Mount Text Shown)
  | .roBind source target | .bind source target => some ⟨target, .host source⟩
  | .dev target => some ⟨target, .devices⟩
  | .proc target => some ⟨target, .processes⟩
  | .tmpfs target => some ⟨target, .empty⟩
  | _ => none

/-- The mounts that bwrap makes of its arguments. -/
def mounts (args : List Arg) : List (Mount Text Shown) :=
  (args.takeWhile (· ≠ .terminator)).filterMap Arg.mount

/-- The file of the host stands in the sandbox at its own path. -/
def Visible (args : List Arg) (file : Path) : Prop :=
  ∃ m source, deciding (mounts args) file = some m ∧ m.shows = .host source ∧
    source ++ file.drop m.target.length = file

/-! ## The builders -/

section Builders

variable (host : Host) (env : Environment)

def consider (workdir : Path) (out : List Path) (path : Option Path) : List Path :=
  match path with
  | none => out
  | some real =>
      if host.isDir real = false then out
      else if real = [] then out
      else if real = workdir then out
      else if real ∈ out then out
      else out ++ [real]

/-- `Path::parent`. -/
def parent (path : Path) : Option Path := if path = [] then none else some path.dropLast

/-- The real places of the data directory, the workspace root and the home. -/
def privatePaths (workdir : Path) : List (Option Path) :=
  [host.canonicalize (env.dataPath host), (parent workdir).bind host.canonicalize,
    env.home.bind host.realpath]

def bwrapMaskedPaths (workdir : Path) : List Path :=
  (privatePaths host env workdir).foldl (consider host workdir) []

def bwrapSharesNetwork (mode : Text) : Bool :=
  ["unrestricted".toList, "bridge".toList, "host".toList].contains mode

/-- The network mode of an attempt; an unknown one of a task, and a restricted one, is none. -/
def effectiveNetwork (networkMode : Option Text) : Text :=
  let raw := networkMode.getD (env.sandboxNetwork.getD "none".toList)
  let net :=
    if networkMode.isSome &&
        !(["none".toList, "restricted".toList, "unrestricted".toList].contains raw)
    then "none".toList else raw
  if net = "restricted".toList then "none".toList else net

def bwrapRunAsPrefix : List Arg :=
  match env.runAs with
  | none => []
  | some (user, none) => [.uid user]
  | some (user, some group) => [.uid user, .gid group]

def bwrapHead (workdir : Path) (options : Options) (masks : List Path) : List Arg :=
  [Arg.dieWithParent, Arg.newSession, Arg.unshareAll] ++
    (if bwrapSharesNetwork (effectiveNetwork env options.networkMode) then [Arg.shareNet]
      else []) ++
    [Arg.roBind [] [], Arg.dev ["dev".toList], Arg.proc ["proc".toList],
      Arg.tmpfs ["tmp".toList]] ++
    masks.map Arg.tmpfs ++
    [if options.readOnlyWorktree then Arg.roBind workdir workdir else Arg.bind workdir workdir,
      Arg.chdir workdir] ++
    bwrapRunAsPrefix env ++ [Arg.terminator]

/-- Before the last two dashes, or at the end. -/
def bwrapInsertRoBind (args : List Arg) (path : Path) : List Arg :=
  match args.reverse.dropWhile (· ≠ .terminator) with
  | [] => args ++ [.roBind path path]
  | last :: before =>
      before.reverse ++ .roBind path path :: last ::
        (args.reverse.takeWhile (· ≠ .terminator)).reverse

def maskedFixed : List Text := ["/tmp/".toList, "/dev/".toList, "/proc/".toList]

def bwrapRebindIfMasked (args : List Arg) (program : Text) (masks : List Path) : List Arg :=
  let underFixed := maskedFixed.any fun m => m.isPrefixOf program
  let underMask := isAbsolute program && masks.any fun m => m.isPrefixOf (components program)
  if !underFixed && !underMask then args
  else if host.isFile (host.absolute program) = false then args
  else bwrapInsertRoBind args (host.absolute program)

/-- A directory of `PATH` is bound where it is below a mask and was not bound yet. -/
def rebindDir (masks bound : List Path) (dir : Text) : List Path :=
  match host.realpath dir with
  | none => bound
  | some real =>
      if host.isDir real = false ∨ real ∈ bound then bound
      else if masks.any fun m => m.isPrefixOf real then bound ++ [real]
      else bound

def reboundDirs (masks : List Path) : List Path :=
  env.pathDirs.foldl (rebindDir host masks) []

def bwrapRebindPathDirs (args : List Arg) (masks : List Path) : List Arg :=
  if masks = [] then args else (reboundDirs host env masks).foldl bwrapInsertRoBind args

/-- The bwrap branch of `sandbox_prefix`. -/
def sandboxPrefix (workdir : Path) (program : Text) (options : Options) : List Arg :=
  let masks := bwrapMaskedPaths host env workdir
  let head := bwrapHead env workdir options masks
  let program := (host.resolveInPath program).getD program
  let head := bwrapRebindIfMasked host head program masks
  let head := bwrapRebindPathDirs host env head masks
  head ++ [Arg.word program]

/-- The bwrap branch of `sandbox_command`. -/
def sandboxCommand (workdir : Path) (program : Text) (args : List Text) (options : Options) :
    List Arg :=
  let masks := bwrapMaskedPaths host env workdir
  let out := bwrapHead env workdir options masks
  let program := (host.resolveInPath program).getD program
  let out := bwrapRebindIfMasked host out program masks
  let out := bwrapRebindPathDirs host env out masks
  out ++ [Arg.word program] ++ args.map .word

end Builders

/-! ## The mounts -/

theorem bwrapInsertRoBind_append (args : List Arg) (path : Path) :
    bwrapInsertRoBind (args ++ [Arg.terminator]) path =
      args ++ [Arg.roBind path path] ++ [Arg.terminator] := by
  simp [bwrapInsertRoBind]

theorem mounts_append {args : List Arg} (h : .terminator ∉ args) (words : List Arg) :
    mounts (args ++ [Arg.terminator] ++ words) = args.filterMap Arg.mount := by
  have hall : ∀ a ∈ args, decide (a ≠ .terminator) = true := by
    intro a ha
    exact decide_eq_true fun heq => h (heq ▸ ha)
  rw [mounts, List.append_assoc, List.takeWhile_append_of_pos hall]
  simp

/-- The arguments before the dashes: the head, and a bind for each of these paths. -/
def boundArgs (env : Environment) (workdir : Path) (options : Options) (masks binds : List Path) :
    List Arg :=
  [Arg.dieWithParent, Arg.newSession, Arg.unshareAll] ++
    (if bwrapSharesNetwork (effectiveNetwork env options.networkMode) then [Arg.shareNet]
      else []) ++
    [Arg.roBind [] [], Arg.dev ["dev".toList], Arg.proc ["proc".toList],
      Arg.tmpfs ["tmp".toList]] ++
    masks.map Arg.tmpfs ++
    [if options.readOnlyWorktree then Arg.roBind workdir workdir else Arg.bind workdir workdir,
      Arg.chdir workdir] ++
    bwrapRunAsPrefix env ++ binds.map fun path => Arg.roBind path path

section Mounts

variable (host : Host) (env : Environment) (workdir : Path) (options : Options)

theorem foldl_insert (args : List Arg) (binds : List Path) :
    binds.foldl bwrapInsertRoBind (args ++ [Arg.terminator]) =
      args ++ binds.map (fun path => Arg.roBind path path) ++ [Arg.terminator] := by
  induction binds generalizing args with
  | nil => simp
  | cons path binds ih =>
      rw [List.foldl_cons, bwrapInsertRoBind_append, ih]
      simp

theorem bwrapHead_eq (masks : List Path) :
    bwrapHead env workdir options masks =
      boundArgs env workdir options masks [] ++ [Arg.terminator] := by
  simp [bwrapHead, boundArgs]

/-- What the program needs bound. -/
def programBinds (program : Text) (masks : List Path) : List Path :=
  let underFixed := maskedFixed.any fun m => m.isPrefixOf program
  let underMask := isAbsolute program && masks.any fun m => m.isPrefixOf (components program)
  if !underFixed && !underMask then []
  else if host.isFile (host.absolute program) = false then []
  else [host.absolute program]

theorem rebindIfMasked_eq (args : List Arg) (program : Text) (masks : List Path) :
    bwrapRebindIfMasked host (args ++ [Arg.terminator]) program masks =
      args ++ (programBinds host program masks).map (fun path => Arg.roBind path path) ++
        [Arg.terminator] := by
  unfold bwrapRebindIfMasked programBinds
  simp only
  split
  · simp
  split
  · simp
  · rw [bwrapInsertRoBind_append]
    simp

theorem rebindPathDirs_eq (args : List Arg) (masks : List Path) :
    bwrapRebindPathDirs host env (args ++ [Arg.terminator]) masks =
      args ++ ((if masks = [] then [] else reboundDirs host env masks).map
        fun path => Arg.roBind path path) ++ [Arg.terminator] := by
  unfold bwrapRebindPathDirs
  split
  · simp
  · exact foldl_insert args _

/-- The paths that are bound over the masks, after the worktree. -/
def binds (program : Text) : List Path :=
  let masks := bwrapMaskedPaths host env workdir
  programBinds host ((host.resolveInPath program).getD program) masks ++
    if masks = [] then [] else reboundDirs host env masks

theorem sandboxPrefix_eq (program : Text) :
    sandboxPrefix host env workdir program options =
      boundArgs env workdir options (bwrapMaskedPaths host env workdir)
          (binds host env workdir program) ++ [Arg.terminator] ++
        [Arg.word ((host.resolveInPath program).getD program)] := by
  unfold sandboxPrefix
  simp only
  rw [bwrapHead_eq, rebindIfMasked_eq, rebindPathDirs_eq]
  simp [boundArgs, binds]

theorem sandboxCommand_eq (program : Text) (args : List Text) :
    sandboxCommand host env workdir program args options =
      sandboxPrefix host env workdir program options ++ args.map Arg.word := rfl

/-- The mounts for these masks and binds. -/
def tableOf (masks binds : List Path) : List (Mount Text Shown) :=
  [⟨[], .host []⟩, ⟨["dev".toList], .devices⟩, ⟨["proc".toList], .processes⟩,
      ⟨["tmp".toList], .empty⟩] ++
    masks.map (fun mask => ⟨mask, .empty⟩) ++
    (workdir :: binds).map fun path => ⟨path, .host path⟩

theorem terminator_not_mem_boundArgs (masks binds : List Path) :
    .terminator ∉ boundArgs env workdir options masks binds := by
  have hrunAs : .terminator ∉ bwrapRunAsPrefix env := by
    unfold bwrapRunAsPrefix
    split <;> simp
  have hshare : .terminator ∉ (if bwrapSharesNetwork (effectiveNetwork env options.networkMode)
      then [Arg.shareNet] else []) := by
    split <;> simp
  have hworktree : Arg.terminator ≠ if options.readOnlyWorktree then .roBind workdir workdir
      else .bind workdir workdir := by
    split <;> simp
  simp [boundArgs, hrunAs, hshare, hworktree]

theorem filterMap_boundArgs (masks binds : List Path) :
    (boundArgs env workdir options masks binds).filterMap Arg.mount =
      tableOf workdir masks binds := by
  have hrunAs : (bwrapRunAsPrefix env).filterMap Arg.mount = [] := by
    unfold bwrapRunAsPrefix
    split <;> rfl
  have hshare : (if bwrapSharesNetwork (effectiveNetwork env options.networkMode)
      then [Arg.shareNet] else []).filterMap Arg.mount = [] := by
    split <;> rfl
  have hworktree : (if options.readOnlyWorktree then Arg.roBind workdir workdir
      else .bind workdir workdir).mount = some ⟨workdir, .host workdir⟩ := by
    split <;> rfl
  have hmasks : (masks.map Arg.tmpfs).filterMap Arg.mount =
      masks.map fun mask => ⟨mask, .empty⟩ := by
    rw [List.filterMap_map]
    exact congrFun List.filterMap_eq_map masks
  have hbinds : (binds.map fun path => Arg.roBind path path).filterMap Arg.mount =
      binds.map fun path => ⟨path, .host path⟩ := by
    rw [List.filterMap_map]
    exact congrFun List.filterMap_eq_map binds
  have hflags : [Arg.dieWithParent, .newSession, .unshareAll].filterMap Arg.mount = [] := rfl
  have hchdir : [Arg.chdir workdir].filterMap Arg.mount = [] := rfl
  simp only [boundArgs, tableOf, List.filterMap_append, hmasks, hbinds, hrunAs, hshare, hflags]
  rw [List.filterMap_cons_some hworktree, hchdir]
  simp [Arg.mount]

theorem mounts_sandboxPrefix (program : Text) :
    mounts (sandboxPrefix host env workdir program options) =
      tableOf workdir (bwrapMaskedPaths host env workdir) (binds host env workdir program) := by
  rw [sandboxPrefix_eq, mounts_append (terminator_not_mem_boundArgs env workdir options _ _),
    filterMap_boundArgs]

theorem mounts_sandboxCommand (program : Text) (args : List Text) :
    mounts (sandboxCommand host env workdir program args options) =
      mounts (sandboxPrefix host env workdir program options) := by
  rw [sandboxCommand_eq, sandboxPrefix_eq, List.append_assoc,
    mounts_append (terminator_not_mem_boundArgs env workdir options _ _),
    mounts_append (terminator_not_mem_boundArgs env workdir options _ _)]

end Mounts

/-! ## What the masks hide -/

section Hidden

variable {host : Host} {env : Environment} {workdir : Path}

theorem consider_subset (out : List Path) (path : Option Path) :
    out ⊆ consider host workdir out path := by
  unfold consider
  repeat' split
  all_goals first
    | exact List.Subset.refl out
    | exact List.subset_append_left _ _

theorem foldl_consider_subset (paths : List (Option Path)) (out : List Path) :
    out ⊆ paths.foldl (consider host workdir) out := by
  induction paths generalizing out with
  | nil => exact List.Subset.refl out
  | cons path paths ih => exact List.Subset.trans (consider_subset out path) (ih _)

theorem mem_consider {dir : Path} (hdir : host.isDir dir = true) (hroot : dir ≠ [])
    (hworkdir : dir ≠ workdir) (out : List Path) :
    dir ∈ consider host workdir out (some dir) := by
  simp only [consider, hdir]
  rw [if_neg (by simp), if_neg hroot, if_neg hworkdir]
  split
  · assumption
  · simp

/-- Every private directory is masked, unless it is the root or the worktree. -/
theorem mem_maskedPaths {dir : Path} (hmem : some dir ∈ privatePaths host env workdir)
    (hdir : host.isDir dir = true) (hroot : dir ≠ []) (hworkdir : dir ≠ workdir) :
    dir ∈ bwrapMaskedPaths host env workdir := by
  have hfold : ∀ (paths : List (Option Path)) (out : List Path), some dir ∈ paths →
      dir ∈ paths.foldl (consider host workdir) out := by
    intro paths
    induction paths with
    | nil => exact fun _ h => (List.not_mem_nil h).elim
    | cons path paths ih =>
        intro out h
        rcases List.mem_cons.mp h with rfl | h
        · exact foldl_consider_subset paths _ (mem_consider hdir hroot hworkdir out)
        · exact ih _ h
  exact hfold _ [] hmem

/-- A directory of `PATH` in its real place. -/
def PathDir (host : Host) (env : Environment) (dir : Path) : Prop :=
  (∃ text ∈ env.pathDirs, host.realpath text = some dir) ∧ host.isDir dir = true

theorem mem_rebindDir {masks bound : List Path} {text : Text} {dir : Path}
    (h : dir ∈ rebindDir host masks bound text) :
    dir ∈ bound ∨
      host.realpath text = some dir ∧ host.isDir dir = true ∧ ∃ mask ∈ masks, mask <+: dir := by
  unfold rebindDir at h
  split at h
  · exact .inl h
  rename_i real hreal
  split at h
  · exact .inl h
  rename_i hnew
  split at h
  · rename_i hmask
    rcases List.mem_append.mp h with h | h
    · exact .inl h
    · obtain rfl := List.mem_singleton.mp h
      obtain ⟨mask, hmem, hprefix⟩ := List.any_eq_true.mp hmask
      have hdir : host.isDir dir = true := by
        by_contra hnot
        exact hnew (.inl ((Bool.not_eq_true _).mp hnot))
      exact .inr ⟨hreal, hdir, mask, hmem, List.isPrefixOf_iff_prefix.mp hprefix⟩
  · exact .inl h

theorem mem_reboundDirs {masks : List Path} {dir : Path} (h : dir ∈ reboundDirs host env masks) :
    PathDir host env dir ∧ ∃ mask ∈ masks, mask <+: dir := by
  have hfold : ∀ (dirs : List Text) (bound : List Path),
      dir ∈ dirs.foldl (rebindDir host masks) bound →
      dir ∈ bound ∨ ∃ text ∈ dirs, host.realpath text = some dir ∧ host.isDir dir = true ∧
        ∃ mask ∈ masks, mask <+: dir := by
    intro dirs
    induction dirs with
    | nil => exact fun _ h => .inl h
    | cons text dirs ih =>
        intro bound h
        rcases ih _ h with hbound | ⟨text', htext', hdir⟩
        · rcases mem_rebindDir hbound with hold | hdir
          · exact .inl hold
          · exact .inr ⟨text, List.mem_cons_self, hdir⟩
        · exact .inr ⟨text', List.mem_cons_of_mem text htext', hdir⟩
  rcases hfold env.pathDirs [] h with hnil | ⟨text, htext, hreal, hdir, hmask⟩
  · cases hnil
  · exact ⟨⟨⟨text, htext, hreal⟩, hdir⟩, hmask⟩

theorem mem_programBinds {program : Text} {masks : List Path} {path : Path}
    (h : path ∈ programBinds host program masks) :
    path = host.absolute program ∧ host.isFile path = true := by
  unfold programBinds at h
  simp only at h
  split at h
  · cases h
  split at h
  · cases h
  · rename_i hfile
    obtain rfl := List.mem_singleton.mp h
    exact ⟨rfl, by simpa using hfile⟩

theorem mem_binds {program : Text} {path : Path} (h : path ∈ binds host env workdir program) :
    (path = host.absolute ((host.resolveInPath program).getD program) ∧
        host.isFile path = true) ∨
      PathDir host env path ∧ ∃ mask ∈ bwrapMaskedPaths host env workdir, mask <+: path := by
  rcases List.mem_append.mp h with h | h
  · exact .inl (mem_programBinds h)
  · split at h
    · cases h
    · exact .inr (mem_reboundDirs h)

/-- What is seen below a mask is bound over it. -/
theorem bound_of_visible {masks bound : List Path} {mask file : Path} (hmask : mask ∈ masks)
    (hbelow : mask <+: file) {m : Mount Text Shown} {source : Path}
    (hdecides : deciding (tableOf workdir masks bound) file = some m)
    (hshows : m.shows = .host source) : ∃ path ∈ workdir :: bound, path <+: file := by
  rw [tableOf] at hdecides
  cases hover : deciding ((workdir :: bound).map fun path => ⟨path, Shown.host path⟩) file with
  | some m' =>
      obtain ⟨hmem, htarget⟩ := deciding_mem hover
      obtain ⟨path, hpath, rfl⟩ := List.mem_map.mp hmem
      exact ⟨path, hpath, htarget⟩
  | none =>
      have hmount : (⟨mask, .empty⟩ : Mount Text Shown) ∈ masks.map fun mask => ⟨mask, .empty⟩ :=
        List.mem_map_of_mem hmask
      rw [deciding_of_uncovered hover, deciding_of_covered hmount hbelow] at hdecides
      obtain ⟨hmem, -⟩ := deciding_mem hdecides
      obtain ⟨mask', -, rfl⟩ := List.mem_map.mp hmem
      cases hshows

end Hidden

/-- Both builders make the same mounts, and below a private directory other than the
root only files of the worktree, the program and files in masked directories of `PATH` are
seen. -/
theorem masks_hold (host : Host) (env : Environment) (workdir : Path) (options : Options)
    (program : Text) :
    (∀ args, mounts (sandboxCommand host env workdir program args options) =
      mounts (sandboxPrefix host env workdir program options)) ∧
    ∀ dir file, some dir ∈ privatePaths host env workdir → host.isDir dir = true → dir ≠ [] →
      host.isFile file = true → dir <+: file →
      Visible (sandboxPrefix host env workdir program options) file →
      workdir <+: file ∨ file = host.absolute ((host.resolveInPath program).getD program) ∨
        ∃ pathDir, PathDir host env pathDir ∧ pathDir <+: file ∧
          ∃ mask ∈ bwrapMaskedPaths host env workdir, mask <+: pathDir := by
  refine ⟨mounts_sandboxCommand host env workdir options program, ?_⟩
  rintro dir file hmem hdir hroot hfile hbelow ⟨m, source, hdecides, hshows, -⟩
  by_cases hworkdir : dir = workdir
  · exact .inl (hworkdir ▸ hbelow)
  rw [mounts_sandboxPrefix] at hdecides
  obtain ⟨path, hpath, hover⟩ := bound_of_visible
    (mem_maskedPaths hmem hdir hroot hworkdir) hbelow hdecides hshows
  rcases List.mem_cons.mp hpath with rfl | hpath
  · exact .inl hover
  · rcases mem_binds hpath with ⟨hprogram, hisFile⟩ | ⟨hpathDir, hmask⟩
    · exact .inr (.inl ((host.leaf path file hisFile hfile hover).symm.trans hprogram))
    · exact .inr (.inr ⟨path, hpathDir, hover, hmask⟩)

/-! ## A node -/

def homeDir : Path := ["home".toList, "u".toList]

def secretKey : Path := ["home".toList, "u".toList, ".ssh".toList, "id".toList]

def worktree : Path := ["home".toList, "u".toList, "ws".toList, "a".toList]

/-- A host without links, with these directories and one file. -/
def plainHost (dirs : List Path) : Host where
  currentDir := homeDir
  canonicalize := some
  isDir path := path ∈ dirs
  isFile path := path = secretKey
  resolveInPath _ := none
  leaf a b ha hb _ := by
    rw [of_decide_eq_true ha, of_decide_eq_true hb]

def nodeEnv : Environment where
  home := some "/home/u".toList
  path := some "/usr/bin:/home/u/bin".toList

def binDir : Path := ["home".toList, "u".toList, "bin".toList]

theorem secret_hidden :
    ¬ Visible (sandboxPrefix (plainHost [homeDir, binDir]) nodeEnv worktree "adapter".toList
      ⟨none, false⟩) secretKey := by
  intro h
  rcases (masks_hold (plainHost [homeDir, binDir]) nodeEnv worktree ⟨none, false⟩
    "adapter".toList).2 homeDir secretKey (by decide) (by decide) (by decide) (by decide)
    (by decide) h with hworktree | hprogram | ⟨pathDir, ⟨⟨text, htext, hreal⟩, hdir⟩, hbelow, -⟩
  · exact absurd hworktree (by decide)
  · exact absurd hprogram (by decide)
  · have hdirs : nodeEnv.pathDirs = ["/usr/bin".toList, "/home/u/bin".toList] := by decide
    rw [hdirs, List.mem_cons, List.mem_singleton] at htext
    rcases htext with rfl | rfl
    · rw [← Option.some_inj.mp hreal] at hdir
      exact absurd hdir (by decide)
    · rw [← Option.some_inj.mp hreal] at hbelow
      exact absurd hbelow (by decide)

/-- With the root as its home a daemon masks nothing for it. -/
theorem root_home_visible : ¬ ∀ (host : Host) (env : Environment) (workdir : Path)
    (options : Options) (program : Text) (dir file : Path),
    some dir ∈ privatePaths host env workdir → host.isDir dir = true →
      host.isFile file = true → dir <+: file →
      Visible (sandboxPrefix host env workdir program options) file →
      workdir <+: file ∨ file = host.absolute ((host.resolveInPath program).getD program) ∨
        ∃ pathDir, PathDir host env pathDir ∧ pathDir <+: file := by
  intro h
  let env : Environment := { home := some ['/'] }
  have hvisible : Visible (sandboxPrefix (plainHost [[]]) env worktree "adapter".toList
      ⟨none, false⟩) secretKey := ⟨⟨[], .host []⟩, [], by decide, rfl, by decide⟩
  rcases h (plainHost [[]]) env worktree ⟨none, false⟩ "adapter".toList [] secretKey (by decide)
    (by decide) (by decide) (by decide) hvisible with
    hworktree | hprogram | ⟨pathDir, ⟨⟨text, htext, -⟩, -⟩, -⟩
  · exact absurd hworktree (by decide)
  · exact absurd hprogram (by decide)
  · cases htext

end AgentGrid.Node
