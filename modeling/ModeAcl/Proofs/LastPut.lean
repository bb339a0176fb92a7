import ModeAcl.Proofs.Operations
import ModeAcl.Proofs.WriteThenRead

/-!
# The last put wins

A run is any sequence of operations over the backend in memory, with the faults
of the backend and the file system changed from outside in between. `history`
tells from the results of the operations which lists were put under which keys.
The list under a key is the last one of the history (`get?_performAll`): failed
applications put nothing, and no operation touches another key. As long as the
object is there and nothing is broken, its mode is the one last put. An object is
reached under one name only, apart from symbolic links, and no list or mode keeps a
client from reaching it.
-/

namespace ModeAcl

/-! ## Runs -/

/-- One step of a run. -/
inductive Action
  | chmod (path : Path) (mode : Mode)
  | mkdir (path : Path) (mode : Mode)
  | mkdirAll (path : Path) (mode : Mode)
  | openFile (path : Path) (flags : OpenFlags) (mode : Mode)
  | writeFile (path : Path) (bytes : List UInt8) (mode : Mode)
  | stat (path : Path)
  | applyMode (path : Path) (mode : Mode) (isDirectory : Bool) (trustees : Trustees)
  | readMode (path : Path)
  /-- A list is put by hand. -/
  | putList (path : Path) (aces : List Ace)
  /-- The owner and the group that descriptors report are changed, and the faults. -/
  | configure (owner group : Sid) (faults : Faults)
  /-- Others change the file system. -/
  | changeFiles (change : FileSystem → FileSystem)

/-- The world after a step, whether the operation succeeds or not. -/
def Action.perform (w : MemoryWorld) : Action → MemoryWorld
  | chmod path mode => ((AclFiles.chmod path mode).run memoryBackend w).2
  | mkdir path mode => ((AclFiles.mkdir path mode).run memoryBackend w).2
  | mkdirAll path mode => ((AclFiles.mkdirAll path mode).run memoryBackend w).2
  | openFile path flags mode => ((AclFiles.openFile path flags mode).run memoryBackend w).2
  | writeFile path bytes mode => ((AclFiles.writeFile path bytes mode).run memoryBackend w).2
  | stat path => ((AclFiles.stat path).run memoryBackend w).2
  | applyMode path mode isDirectory trustees =>
    ((ModeAcl.applyMode path mode isDirectory trustees).run memoryBackend w).2
  | readMode path => ((ModeAcl.readMode path).run memoryBackend w).2
  | putList path aces =>
    { w with backend := { w.backend with store := w.backend.store.put path.key aces } }
  | configure owner group faults =>
    { w with backend := ⟨w.backend.store, owner, group, faults⟩ }
  | changeFiles change => { w with files := change w.files }

def performAll (actions : List Action) (w : MemoryWorld) : MemoryWorld :=
  actions.foldl Action.perform w

/-! ## Histories -/

/-- What put a list under a key. -/
inductive Put
  | given (key : Path.Key) (aces : List Ace)
  | applied (key : Path.Key) (mode : Mode) (isDirectory : Bool) (trustees : Trustees)
  deriving DecidableEq

def Put.key : Put → Path.Key
  | given key _ | applied key _ _ _ => key

def Put.aces : Put → List Ace
  | given _ aces => aces
  | applied _ mode isDirectory trustees => modeAces mode isDirectory trustees

/-- A put that has happened if the operation that makes it has succeeded. -/
def Put.ifOk {α : Type} (put : Put) : Except Error α → List Put
  | .ok _ => [put]
  | .error _ => []

namespace AclFiles

def chmodPuts (path : Path) (mode : Mode) (w : MemoryWorld) : List Put :=
  match w.files.metadata path with
  | .ok m => Put.ifOk (.applied path.key mode m.isDirectory .creator)
      ((chmod path mode).run memoryBackend w).1
  | .error _ => []

/-- The key is that of the absolute path. -/
def mkdirPuts (path : Path) (mode : Mode) (w : MemoryWorld) : List Put :=
  match w.files.absolute path with
  | .ok whole => Put.ifOk (.applied whole.key mode true .currentUser)
      ((mkdir path mode).run memoryBackend w).1
  | .error _ => []

/-- One put for each directory that is created. -/
def mkdirEachPuts (mode : Mode) : List Path → MemoryWorld → List Put
  | [], _ => []
  | path :: above, w =>
    if w.files.isDirectory path then []
    else
      mkdirEachPuts mode above w ++
        match (mkdirEach mode above).run memoryBackend w with
        | (.ok (), w') => mkdirPuts path mode w'
        | (.error _, _) => []

/-- Only a file that was not there before gets a list. -/
def openFilePuts (path : Path) (flags : OpenFlags) (mode : Mode) (w : MemoryWorld) : List Put :=
  if flags.creates && !w.files.hasObject path then
    Put.ifOk (.applied path.key mode false .creator)
      ((openFile path flags mode).run memoryBackend w).1
  else []

end AclFiles

/-- The puts of a step, in order. -/
def Action.puts (w : MemoryWorld) : Action → List Put
  | chmod path mode => AclFiles.chmodPuts path mode w
  | mkdir path mode => AclFiles.mkdirPuts path mode w
  | mkdirAll path mode => AclFiles.mkdirEachPuts mode path.ancestors w
  | openFile path flags mode => AclFiles.openFilePuts path flags mode w
  | writeFile path _ mode => AclFiles.openFilePuts path .createTruncate mode w
  | applyMode path mode isDirectory trustees =>
    Put.ifOk (.applied path.key mode isDirectory trustees)
      ((ModeAcl.applyMode path mode isDirectory trustees).run memoryBackend w).1
  | putList path aces => [.given path.key aces]
  | stat _ | readMode _ | configure _ _ _ | changeFiles _ => []

/-- All puts of a run. -/
def history : List Action → MemoryWorld → List Put
  | [], _ => []
  | action :: actions, w => action.puts w ++ history actions (action.perform w)

/-- The last put under a key. -/
def lastPut? (key : Path.Key) (puts : List Put) : Option Put :=
  puts.reverse.find? (·.key == key)

/-- Put several lists one after the other. -/
def ListStore.putAll (store : ListStore) (puts : List Put) : ListStore :=
  puts.foldl (fun store put => store.put put.key put.aces) store

theorem ListStore.putAll_append (store : ListStore) (first second : List Put) :
    store.putAll (first ++ second) = (store.putAll first).putAll second :=
  List.foldl_append

theorem ListStore.get?_putAll (store : ListStore) (puts : List Put) (key : Path.Key) :
    (store.putAll puts).get? key =
      match lastPut? key puts with
      | some put => some put.aces
      | none => store.get? key := by
  induction puts generalizing store with
  | nil => rfl
  | cons put puts ih =>
    have rest := ih (store.put put.key put.aces)
    rw [ListStore.get?_put] at rest
    have last : lastPut? key (put :: puts) =
        (lastPut? key puts).or ([put].find? (·.key == key)) := by
      rw [lastPut?, List.reverse_cons, List.find?_append]
      rfl
    rw [last]
    refine rest.trans ?_
    cases lastPut? key puts with
    | some later => rfl
    | none =>
      by_cases same : key = put.key
      · simp [same]
      · have other : (put.key == key) = false := beq_false_of_ne (Ne.symm same)
        simp [same, other]

/-! ## One step -/

variable {w : MemoryWorld}

theorem store_of_applyMode (path : Path) (mode : Mode) (isDirectory : Bool)
    (trustees : Trustees) (w : MemoryWorld) :
    ((applyMode path mode isDirectory trustees).run memoryBackend w).2.backend.store =
      w.backend.store.putAll (Put.ifOk (.applied path.key mode isDirectory trustees)
        ((applyMode path mode isDirectory trustees).run memoryBackend w).1) := by
  rcases ran : (applyMode path mode isDirectory trustees).run memoryBackend w with ⟨e | _, w'⟩
  · exact store_of_applyMode_error ran
  · exact store_of_applyMode_ok ran

/-- A call to the file system changes no list, whatever it changes there. -/
theorem store_of_onFiles (c : FileCall) (w : MemoryWorld) :
    ((onFiles c : Procedure (List Ace) MemoryDescriptor _).run memoryBackend.respond
      w).2.backend.store = w.backend.store :=
  store_of_not_sets fun sets => sets

namespace AclFiles

theorem store_of_applyOrRemove (path : Path) (mode : Mode) (isDirectory : Bool)
    (trustees : Trustees) {removal : Procedure (List Ace) MemoryDescriptor (Except CallError Unit)}
    (keeps : ∀ w, (removal.run memoryBackend.respond w).2.backend.store = w.backend.store)
    (w : MemoryWorld) :
    ((applyOrRemove path mode isDirectory trustees removal).run memoryBackend w).2.backend.store =
      w.backend.store.putAll (Put.ifOk (.applied path.key mode isDirectory trustees)
        ((applyOrRemove path mode isDirectory trustees removal).run memoryBackend w).1) := by
  have applied := store_of_applyMode path mode isDirectory trustees w
  rw [run_applyOrRemove]
  rcases ran : (applyMode path mode isDirectory trustees).run memoryBackend w with ⟨e | _, w'⟩
  · have removed := keeps w'
    rw [ran] at applied
    dsimp only
    rcases again : removal.run memoryBackend.respond w' with ⟨e' | _, w''⟩ <;>
    · rw [again] at removed
      exact removed.trans applied
  · rw [ran] at applied
    exact applied

theorem store_of_chmod (path : Path) (mode : Mode) (w : MemoryWorld) :
    ((chmod path mode).run memoryBackend w).2.backend.store =
      w.backend.store.putAll (chmodPuts path mode w) := by
  rw [chmodPuts, run_chmod]
  rcases w.files.metadata path with e | m
  · rfl
  · exact store_of_applyMode path mode m.isDirectory .creator w

theorem store_of_mkdir (path : Path) (mode : Mode) (w : MemoryWorld) :
    ((mkdir path mode).run memoryBackend w).2.backend.store =
      w.backend.store.putAll (mkdirPuts path mode w) := by
  rw [mkdirPuts, run_mkdir]
  rcases w.files.absolute path with e | whole
  · rfl
  dsimp only
  rcases w.files.createDirectory whole FileSystem.defaultDirectoryMode with e | fs
  · rfl
  · exact store_of_applyOrRemove whole mode true .currentUser (store_of_onFiles _) _

/-- The induction is on the directories that may have to be created. Those above come first, so
their puts do. -/
theorem store_of_mkdirEach (mode : Mode) (paths : List Path) (w : MemoryWorld) :
    ((mkdirEach mode paths).run memoryBackend w).2.backend.store =
      w.backend.store.putAll (mkdirEachPuts mode paths w) := by
  induction paths generalizing w with
  | nil => rfl
  | cons path above ih =>
    rw [mkdirEachPuts, run_mkdirEach]
    by_cases there : w.files.isDirectory path
    · rw [if_pos there, if_pos there]
      rfl
    have below := ih w
    rw [if_neg there, if_neg there, ListStore.putAll_append, ← below]
    rcases (mkdirEach mode above).run memoryBackend w with ⟨e | _, w'⟩
    · rfl
    have made := store_of_mkdir path mode w'
    dsimp only
    rw [← made]
    rcases (mkdir path mode).run memoryBackend w' with ⟨e | _, w''⟩
    · rw [orFound]
      split <;> rfl
    · rfl

theorem store_of_openFile (path : Path) (flags : OpenFlags) (mode : Mode) (w : MemoryWorld) :
    ((openFile path flags mode).run memoryBackend w).2.backend.store =
      w.backend.store.putAll (openFilePuts path flags mode w) := by
  rw [openFilePuts, FileSystem.hasObject]
  cases creates : flags.creates with
  | false =>
    rw [run_openFile_of_not_creates creates]
    rcases w.files.openFile path flags FileSystem.defaultFileMode with e | ⟨handle, fs⟩ <;> rfl
  | true =>
    rcases there : w.files.metadata path with e | m
    · by_cases missing : e.kind = .notFound
      · rw [run_openFile_of_missing creates there missing]
        rcases w.files.openFile path flags FileSystem.defaultFileMode with e' | ⟨handle, fs⟩
        · rfl
        have stored := store_of_applyOrRemove path mode false .creator
          (store_of_onFiles (.removeFile path)) { w with files := fs }
        dsimp only
        rcases ran : (applyOrRemove path mode false .creator (onFiles (.removeFile path))).run
          memoryBackend { w with files := fs } with ⟨e' | _, w'⟩ <;>
        · rw [ran] at stored
          exact stored
      · rw [run_openFile_of_hidden creates there missing]
        rfl
    · rw [run_openFile_of_found creates there]
      rcases w.files.openFile path flags FileSystem.defaultFileMode with e' | ⟨handle, fs⟩ <;> rfl

theorem store_of_writeFile (path : Path) (bytes : List UInt8) (mode : Mode) (w : MemoryWorld) :
    ((writeFile path bytes mode).run memoryBackend w).2.backend.store =
      w.backend.store.putAll (openFilePuts path .createTruncate mode w) := by
  rw [run_writeFile, ← store_of_openFile]
  rcases (openFile path .createTruncate mode).run memoryBackend w with ⟨e | handle, w'⟩
  · rfl
  dsimp only
  rcases w'.files.write handle bytes with e | ⟨handle', fs⟩ <;> rfl

theorem store_of_stat (path : Path) (w : MemoryWorld) :
    ((stat path).run memoryBackend w).2.backend.store = w.backend.store := by
  rw [run_stat]
  rcases w.files.metadata path with e | m
  · rfl
  have read := (readMode_within path).store Call.Reads.not_sets w
  dsimp only
  rw [Operation.result_run] at read
  rcases ran : (readMode path).run memoryBackend w with ⟨e | perm, w'⟩ <;>
  · rw [ran] at read
    exact read

end AclFiles

/-- A step puts the lists that its results tell of, and no others. -/
theorem store_of_perform (action : Action) (w : MemoryWorld) :
    (action.perform w).backend.store = w.backend.store.putAll (action.puts w) := by
  cases action with
  | chmod path mode => exact AclFiles.store_of_chmod path mode w
  | mkdir path mode => exact AclFiles.store_of_mkdir path mode w
  | mkdirAll path mode => exact AclFiles.store_of_mkdirEach mode path.ancestors w
  | openFile path flags mode => exact AclFiles.store_of_openFile path flags mode w
  | writeFile path bytes mode => exact AclFiles.store_of_writeFile path bytes mode w
  | stat path => exact AclFiles.store_of_stat path w
  | applyMode path mode isDirectory trustees =>
    exact store_of_applyMode path mode isDirectory trustees w
  | readMode path => exact (readMode_within path).store Call.Reads.not_sets w
  | putList path aces => rfl
  | configure owner group faults => rfl
  | changeFiles change => rfl

/-! ## Whole runs -/

theorem store_of_performAll (actions : List Action) (w : MemoryWorld) :
    (performAll actions w).backend.store = w.backend.store.putAll (history actions w) := by
  induction actions generalizing w with
  | nil => rfl
  | cons action actions ih =>
    have later := ih (action.perform w)
    rw [store_of_perform] at later
    rw [history, ListStore.putAll_append]
    exact later

/-- The list under a key is the last one that was put there. -/
theorem get?_performAll (actions : List Action) (w : MemoryWorld) (key : Path.Key) :
    (performAll actions w).backend.store.get? key =
      match lastPut? key (history actions w) with
      | some put => some put.aces
      | none => w.backend.store.get? key := by
  rw [store_of_performAll, ListStore.get?_putAll]

/-- After any run, the list under a key is the last one that was put there, and the one from before
the run if there is none. So if the last put under the key of an object was an application of a
mode, and nothing is broken and the object belongs to the user, then that mode is read from it and
shown with its type. -/
theorem lastPut_wins (actions : List Action) (w : MemoryWorld) :
    (∀ key, (performAll actions w).backend.store.get? key =
      match lastPut? key (history actions w) with
      | some put => some put.aces
      | none => w.backend.store.get? key) ∧
    (∀ path key mode isDirectory trustees m,
      lastPut? (Path.key path) (history actions w) = some (.applied key mode isDirectory trustees) →
      (performAll actions w).files.metadata path = .ok m →
      (performAll actions w).backend.faults = .none →
      (performAll actions w).backend.owner = MemoryBackend.userSid →
      (performAll actions w).backend.group = MemoryBackend.groupSid →
        ((readMode path).run memoryBackend (performAll actions w)).1 = .ok mode.perm ∧
        ((AclFiles.stat path).run memoryBackend (performAll actions w)).1 =
          .ok ⟨path.displayName, m, (Mode.ofType m.type).withPerm mode.perm⟩) := by
  refine ⟨get?_performAll actions w, ?_⟩
  intro path key mode isDirectory trustees m last found calm owned grouped
  have stored := get?_performAll actions w path.key
  rw [last] at stored
  exact ⟨congrArg Prod.fst (readMode_of_modeAces calm owned grouped stored),
    congrArg Prod.fst (AclFiles.stat_of_modeAces calm owned grouped found stored)⟩

/-- A directory gets a list by hand, and then a mode. -/
theorem stat_of_last_chmod :
    ((AclFiles.stat ⟨"/a/"⟩).run memoryBackend
      (performAll [.putList ⟨"/a"⟩ [], .chmod ⟨"/a"⟩ ⟨0o7005⟩]
        ⟨⟨.directory ⟨0o755⟩ [("a", .directory ⟨0o755⟩ [])], .linked [], ⟨0o022⟩⟩,
          .initial⟩)).1 =
      .ok ⟨"a", ⟨.directory, ⟨0o755⟩, 0⟩, ⟨0o040005⟩⟩ := by
  let actions : List Action := [.putList ⟨"/a"⟩ [], .chmod ⟨"/a"⟩ ⟨0o7005⟩]
  let w : MemoryWorld :=
    ⟨⟨.directory ⟨0o755⟩ [("a", .directory ⟨0o755⟩ [])], .linked [], ⟨0o022⟩⟩, .initial⟩
  have last : lastPut? (Path.key ⟨"/a/"⟩) (history actions w) =
      some (.applied [.root, .name "a"] ⟨0o7005⟩ true .creator) := by decide +kernel
  have found : (performAll actions w).files.metadata ⟨"/a/"⟩ =
      .ok ⟨.directory, ⟨0o755⟩, 0⟩ := by rfl
  have calm : (performAll actions w).backend.faults = .none := by rfl
  have owned : (performAll actions w).backend.owner = MemoryBackend.userSid := by rfl
  have grouped : (performAll actions w).backend.group = MemoryBackend.groupSid := by rfl
  have name : Path.displayName ⟨"/a/"⟩ = "a" := by decide +kernel
  have mode : (Mode.ofType .directory).withPerm (Mode.perm ⟨0o7005⟩) = ⟨0o040005⟩ := by decide
  have both := (lastPut_wins actions w).2 _ _ _ _ _ _ last found calm owned grouped
  rw [name, mode] at both
  exact both.2

end ModeAcl
