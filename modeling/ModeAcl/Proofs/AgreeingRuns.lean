import ModeAcl.Proofs.Agreement

/-!
# Runs agree

Directories with all those above them are created top down by both, but not in
the same order of calls: with lists, every path is looked at before anything is
created, and with modes, creating comes first and the paths above are tried only
if one is missing. With that, the same requests below a directory that is empty
at first are answered alike, one after the other, and leave trees of the same
shape (`runs_agree`). Neither lists nor modes keep anybody out of anything here, and
a tree has no devices, pipes or second names.
-/

namespace ModeAcl

open FileSystem

/-! ## Directories and those above them -/

section

variable {p : Path}

namespace AclFiles

variable {Acl Descriptor σ : Type} {b : Backend Acl Descriptor σ} {w : World σ}

theorem mkdirEach_of_isDirectory (found : w.files.isDirectory p = true) (n : Nat) (mode : Mode) :
    (mkdirEach mode (p.upwards n)).run b w = (.ok (), w) := by
  obtain ⟨above, paths⟩ := Path.upwards_head n p
  rw [paths, run_mkdirEach, if_pos found]

/-- Where names cannot be looked up for other reasons than that one is missing, nothing is
created. -/
theorem mkdirEach_of_blocked {n : Nat} (plain : p.Plain) (free : LinkFree w.files.root [] p.names)
    (inside : ∃ mode, w.files.root.faceAt [] = some (.directory mode)) (checked : p.check = .ok ())
    (enough : p.names.length ≤ n) {e : Errno} (blocked : lookIn w.files.root [] p.names = .error e)
    (other : e.kind ≠ .notFound) (mode : Mode) :
    ∃ e', (mkdirEach mode (p.upwards n)).run b w = (.error e', w) := by
  induction n generalizing p with
  | zero =>
    rw [List.eq_nil_of_length_eq_zero (Nat.le_zero.mp enough)] at blocked
    cases blocked
  | succ n ih =>
    have hidden : ¬ w.files.isDirectory p = true := by
      rw [isDirectory_iff plain free inside, blocked]
      rintro ⟨-, looked⟩
      cases looked
    rcases List.eq_nil_or_concat p.names with top | ⟨init, name, named⟩
    · rw [top] at blocked
      cases blocked
    rw [List.concat_eq_append] at named
    obtain ⟨q, plain', names, checks, paths⟩ := plain.upwards_succ named
    have free' : LinkFree w.files.root [] q.names := by
      rw [names]
      exact free.up ⟨[name], named.symm⟩
    obtain ⟨few, paths⟩ := paths n
    rw [paths, run_mkdirEach, if_neg hidden]
    rcases looked : lookIn w.files.root [] init with e' | _
    · have same := blocked
      rw [named, lookIn_append, looked] at same
      cases same
      obtain ⟨e', failed⟩ := ih plain' free' (checks checked) (few enough) (names ▸ looked)
      rw [failed]
      exact ⟨e', rfl⟩
    · have found : w.files.isDirectory q = true :=
        (isDirectory_iff plain' free' inside).mpr ⟨checks checked, names ▸ looked⟩
      obtain ⟨whole, absolute, respells⟩ := plain.absolute (by simp [named])
      have same := respells.names
      obtain ⟨e', refused⟩ := createDirectory_of_blocked respells.plain (same ▸ free) inside
        (respells.checked checked) (same ▸ blocked) other defaultDirectoryMode
      rw [mkdirEach_of_isDirectory found]
      dsimp only
      rw [run_mkdir_of_refused (absolute _) refused, orFound, if_neg fun both => hidden both.2]
      exact ⟨_, rfl⟩

end AclFiles

namespace Native

variable {fs fs' : FileSystem} {above : List Path} {mode : Mode}

/-- The result of an attempt to create a directory that counts if there is one afterwards. -/
def orFound (path : Path) (fs : FileSystem) : Except CallError FileSystem →
    Except Error Unit × FileSystem
  | .ok fs' => (.ok (), fs')
  | .error e => if fs.isDirectory path then (.ok (), fs) else (.error (.io e), fs)

theorem mkdirEach_of_created (ok : fs.createDirectory p mode.modeBits = .ok fs') :
    mkdirEach mode (p :: above) fs = (.ok (), fs') := by
  rw [mkdirEach, ok]

theorem mkdirEach_of_refused {e : CallError}
    (refused : fs.createDirectory p mode.modeBits = .error e) (other : e.kind ≠ .notFound) :
    mkdirEach mode (p :: above) fs = orFound p fs (.error e) := by
  rw [mkdirEach, refused]
  exact if_neg other

theorem mkdirEach_of_missing {e : CallError}
    (refused : fs.createDirectory p mode.modeBits = .error e) (missing : e.kind = .notFound) :
    mkdirEach mode (p :: above) fs =
      match mkdirEach mode above fs with
      | (.error e, fs) => (.error e, fs)
      | (.ok (), fs) => orFound p fs (fs.createDirectory p mode.modeBits) := by
  rw [mkdirEach, refused]
  refine (if_pos missing).trans ?_
  rcases mkdirEach mode above fs with ⟨_ | _, fs'⟩
  · rfl
  · dsimp only
    rcases fs'.createDirectory p mode.modeBits with _ | _ <;> rfl

/-- If the path above is a directory, no path above is tried. -/
theorem mkdirEach_of_looked (plain : p.Plain) (free : LinkFree fs.root [] p.names)
    (inside : ∃ mode, fs.root.faceAt [] = some (.directory mode)) (checked : p.check = .ok ())
    {init : List String} {name : String} (named : p.names = init ++ [name])
    (looked : lookIn fs.root [] init = .ok ()) :
    mkdirEach mode (p :: above) fs = orFound p fs (fs.createDirectory p mode.modeBits) := by
  rcases made : fs.createDirectory p mode.modeBits with e | fs'
  · refine mkdirEach_of_refused made ?_
    rw [createDirectory_eq plain free inside named checked, looked] at made
    dsimp only at made
    split at made
    · cases made
      decide
    · rcases there : fs.root.faceAt (init ++ [name]) with _ | f
      · rw [there] at made
        cases made
      · rw [there] at made
        cases made
        decide
  · exact mkdirEach_of_created made

end Native

namespace Agree

variable {loc : Location} {w : MemoryWorld} {fs : FileSystem}

/-- Creating a directory once those above it are there; one that is there already will do. -/
theorem createOrFind (agree : Agree loc w fs) (plain : p.Plain) (along : Along loc p.names)
    (some_ : p.names ≠ []) (checked : p.check = .ok ()) (mode : Mode) :
    Simulates loc (fun _ _ => True)
      (AclFiles.orFound p ((AclFiles.mkdir p mode).run memoryBackend w))
      (Native.orFound p fs (fs.createDirectory p mode.modeBits)) := by
  rcases agree.createDirectory plain along some_ checked mode with
    ⟨e, refused, refused'⟩ | ⟨w', fs', ok, ok', states⟩
  · rw [refused, refused', AclFiles.orFound, Native.orFound,
      isDirectory_congr agree.shape plain.rooted]
    by_cases found : fs.isDirectory p = true
    · have exists_ := createDirectory_of_isDirectory plain (agree.linkFree along) agree.inside
        mode.modeBits found
      rw [refused'] at exists_
      cases exists_
      rw [if_pos ⟨rfl, found⟩, if_pos found]
      exact ⟨trivial, agree⟩
    · rw [if_neg fun both => found both.2, if_neg found]
      exact agree.failed
  · rw [ok, ok']
    exact ⟨trivial, states⟩

/-- Nothing is done where there is a directory. -/
theorem mkdirEach_of_isDirectory (agree : Agree loc w fs) (plain : p.Plain)
    (along : Along loc p.names) (found : fs.isDirectory p = true) (n : Nat) (mode : Mode) :
    Simulates loc (fun _ _ => True)
      ((AclFiles.mkdirEach mode (p.upwards n)).run memoryBackend w)
      (Native.mkdirEach mode (p.upwards n) fs) := by
  have found' : w.files.isDirectory p = true :=
    (isDirectory_congr agree.shape plain.rooted).trans found
  have exists_ := createDirectory_of_isDirectory plain (agree.linkFree along) agree.inside
    mode.modeBits found
  obtain ⟨above, paths⟩ := Path.upwards_head n p
  rw [AclFiles.mkdirEach_of_isDirectory found', paths,
    Native.mkdirEach_of_refused exists_ (by decide), Native.orFound, if_pos found]
  exact ⟨trivial, agree⟩

/-- The induction is on the number of names: the path above has one less. -/
theorem mkdirEach {n : Nat} (agree : Agree loc w fs) (plain : p.Plain)
    (along : Along loc p.names) (checked : p.check = .ok ()) (enough : p.names.length ≤ n)
    (mode : Mode) :
    Simulates loc (fun _ _ => True)
      ((AclFiles.mkdirEach mode (p.upwards n)).run memoryBackend w)
      (Native.mkdirEach mode (p.upwards n) fs) := by
  induction n generalizing p with
  | zero =>
    have top : p.names = [] := List.eq_nil_of_length_eq_zero (Nat.le_zero.mp enough)
    have found := (isDirectory_iff plain (agree.linkFree along) agree.inside).mpr
      ⟨checked, by rw [top]; rfl⟩
    exact agree.mkdirEach_of_isDirectory plain along found 0 mode
  | succ n ih =>
    have free := agree.linkFree along
    by_cases found : fs.isDirectory p = true
    · exact agree.mkdirEach_of_isDirectory plain along found (n + 1) mode
    have hidden : ¬ w.files.isDirectory p = true := by
      rwa [isDirectory_congr agree.shape plain.rooted]
    rcases List.eq_nil_or_concat p.names with top | ⟨init, name, named⟩
    · exact absurd ((isDirectory_iff plain free agree.inside).mpr
        ⟨checked, by rw [top]; rfl⟩) found
    rw [List.concat_eq_append] at named
    have some_ : p.names ≠ [] := by simp [named]
    obtain ⟨q, plain', names, checks, paths⟩ := plain.upwards_succ named
    have along' : Along loc q.names := by
      rw [names]
      exact along.up ⟨[name], named.symm⟩
    obtain ⟨few, paths⟩ := paths n
    rw [paths, AclFiles.run_mkdirEach, if_neg hidden]
    rcases looked : lookIn fs.root [] init with e | _
    · have refused : fs.createDirectory p mode.modeBits = .error (.os e) := by
        rw [createDirectory_eq plain free agree.inside named checked, looked]
      by_cases missing : e.kind = .notFound
      · -- both try the paths above, and then this one
        obtain ⟨results, states⟩ := ih plain' along' (checks checked) (few enough)
        rw [Native.mkdirEach_of_missing refused missing]
        revert results states
        rcases (AclFiles.mkdirEach mode (q.upwards n)).run memoryBackend w with ⟨e | _, w'⟩ <;>
          rcases Native.mkdirEach mode (q.upwards n) fs with ⟨e' | _, fs'⟩ <;> intro results states
        · exact states.failed
        · cases results
        · cases results
        · dsimp only at states ⊢
          exact states.createOrFind plain along some_ checked mode
      · -- with lists, the paths above are looked at as well, but none of them is created
        have blocked : lookIn w.files.root [] q.names = .error e := by
          rw [names, lookIn_congr agree.shape, looked]
        obtain ⟨e', stopped⟩ := AclFiles.mkdirEach_of_blocked (b := memoryBackend) plain'
          (agree.linkFree_lists along') agree.inside_lists (checks checked) (few enough) blocked missing
            mode
        rw [stopped, Native.mkdirEach_of_refused refused missing, Native.orFound, if_neg found]
        exact agree.failed
    · have above : w.files.isDirectory q = true := by
        rw [isDirectory_congr agree.shape plain'.rooted,
          isDirectory_iff plain' (agree.linkFree along') agree.inside, names]
        exact ⟨checks checked, looked⟩
      rw [AclFiles.mkdirEach_of_isDirectory above,
        Native.mkdirEach_of_looked plain free agree.inside checked named looked]
      dsimp only
      exact agree.createOrFind plain along some_ checked mode

theorem mkdirAll (agree : Agree loc w fs) (below : p.Below loc) (checked : p.check = .ok ())
    (mode : Mode) :
    Simulates loc (fun _ _ => True) ((AclFiles.mkdirAll p mode).run memoryBackend w)
      (Native.mkdirAll p mode fs) := by
  have filled : ¬ (p.text == "") = true := by
    simpa using Path.text_ne_empty_of_rooted below.plain.rooted
  have enough : p.names.length ≤ p.pieces.length := List.length_filter_le _ _
  rw [AclFiles.mkdirAll, Native.mkdirAll, if_neg filled]
  exact agree.mkdirEach below.plain below.along checked enough mode

end Agree

end

/-! ## What is shown -/

/-- The same type bits and the same nine bits of the triads. -/
def FileInfo.Matches (info info' : FileInfo) : Prop :=
  info.mode &&& .typeMask = info'.mode &&& .typeMask ∧ info.mode.perm = info'.mode.perm

/-- A type over the triads of a list, and a type over a mode with these triads. -/
theorem matches_of_listed {type : ObjectType} (common : type = .file ∨ type = .directory)
    {perm mode : Mode} (untyped : mode &&& .typeMask = ⟨0⟩) (same : perm.perm = mode.perm) :
    (Mode.ofType type).withPerm perm &&& .typeMask =
        (Mode.ofNativeType type ||| mode) &&& .typeMask ∧
      ((Mode.ofType type).withPerm perm).perm = (Mode.ofNativeType type ||| mode).perm := by
  have apart : Mode.permMask &&& .typeMask = ⟨0⟩ := by decide
  have whole : Mode.permMask &&& .permMask = .permMask := by decide
  have types : Mode.ofType type &&& ~~~.permMask &&& .typeMask =
      Mode.ofNativeType type &&& .typeMask := by
    rcases common with rfl | rfl <;> decide
  have triads : Mode.ofType type &&& ~~~.permMask &&& .permMask =
      Mode.ofNativeType type &&& .permMask := by
    rcases common with rfl | rfl <;> decide
  constructor
  · rw [Mode.withPerm, Mode.or_and, Mode.or_and, types, untyped, Mode.perm, Mode.and_and perm, apart,
      Mode.and_zero]
  · rw [Mode.perm, Mode.perm] at same
    rw [Mode.perm, Mode.withPerm, Mode.or_and, Mode.perm, Mode.and_and perm, whole, triads, same,
      Mode.perm, Mode.or_and]

theorem Agree.stat {loc : Location} {w : MemoryWorld} {fs : FileSystem} {p : Path}
    (agree : Agree loc w fs) (below : p.Below loc) :
    Simulates loc FileInfo.Matches ((AclFiles.stat p).run memoryBackend w)
      (Native.stat p fs, fs) := by
  rcases agree.metadata below with ⟨e, told, told'⟩ | ⟨node, node', -, found, shape, told, told'⟩
  · rw [AclFiles.run_stat, Native.stat, told, told']
    exact agree.failed
  obtain ⟨common, untyped, mode, isDirectory, trustees, stored, perm⟩ :=
    agree.listed_of_get? below found
  rw [← Agree.key_eq below.plain] at stored
  rw [AclFiles.stat_of_modeAces agree.calm agree.owned agree.grouped told stored, Native.stat, told']
  refine ⟨?_, agree⟩
  have type : node.metadata.type = node'.metadata.type ∧
      (node'.metadata.type = .file ∨ node'.metadata.type = .directory) := by
    cases node <;> cases node' <;> cases shape
    · exact ⟨rfl, Or.inl rfl⟩
    · exact ⟨rfl, Or.inr rfl⟩
    · cases common
    · cases common
  rw [Node.mode_face] at untyped perm
  show FileInfo.Matches ⟨_, _, (Mode.ofType node.metadata.type).withPerm mode.perm⟩
    ⟨_, _, Mode.ofNativeType node'.metadata.type ||| node'.mode⟩
  rw [type.1]
  exact matches_of_listed type.2 untyped ((Mode.perm_perm mode).trans perm)

/-! ## Whole runs -/

/-- What is asked of either implementation. -/
inductive Request
  | chmod (path : Path) (mode : Mode)
  | mkdir (path : Path) (mode : Mode)
  | mkdirAll (path : Path) (mode : Mode)
  | openFile (path : Path) (flags : OpenFlags) (mode : Mode)
  | writeFile (path : Path) (bytes : List UInt8) (mode : Mode)
  | stat (path : Path)

/-- Success or failure, with what is shown of an object if that was asked for. -/
abbrev Response : Type := Except Error (Option FileInfo)

/-- A result of which nothing but success or failure is looked at. -/
def silent {α σ : Type} (result : Except Error α × σ) : Response × σ :=
  (result.1.map fun _ => none, result.2)

def shown {σ : Type} (result : Except Error FileInfo × σ) : Response × σ :=
  (result.1.map some, result.2)

namespace Request

def path : Request → Path
  | chmod path _ | mkdir path _ | mkdirAll path _ | openFile path _ _ | writeFile path _ _
  | stat path => path

/-- The request to files whose permissions are access control lists. -/
def onLists (w : MemoryWorld) : Request → Response × MemoryWorld
  | chmod path mode => silent ((AclFiles.chmod path mode).run memoryBackend w)
  | mkdir path mode => silent ((AclFiles.mkdir path mode).run memoryBackend w)
  | mkdirAll path mode => silent ((AclFiles.mkdirAll path mode).run memoryBackend w)
  | openFile path flags mode => silent ((AclFiles.openFile path flags mode).run memoryBackend w)
  | writeFile path bytes mode => silent ((AclFiles.writeFile path bytes mode).run memoryBackend w)
  | stat path => shown ((AclFiles.stat path).run memoryBackend w)

/-- The request to files whose permissions are modes. -/
def onModes (fs : FileSystem) : Request → Response × FileSystem
  | chmod path mode => silent (Native.chmod path mode fs)
  | mkdir path mode => silent (Native.mkdir path mode fs)
  | mkdirAll path mode => silent (Native.mkdirAll path mode fs)
  | openFile path flags mode => silent (Native.openFile path flags mode fs)
  | writeFile path bytes mode => silent (Native.writeFile path bytes mode fs)
  | stat path => shown (Native.stat path fs, fs)

/-- The path is not one that the system refuses before anything is looked up, or at least the paths
that are made of it with lists are refused as well. -/
def Fits : Request → Prop
  | mkdir path _ => ∀ workingDirectory whole, path.absolute workingDirectory = .ok whole →
    whole.text.utf8ByteSize < maxPathLength → path.text.utf8ByteSize < maxPathLength
  | mkdirAll path _ => path.check = .ok ()
  | _ => True

end Request

/-- Make requests one after the other. -/
def respondAll {σ : Type} (respond : σ → Request → Response × σ) :
    List Request → σ → List Response × σ
  | [], s => ([], s)
  | r :: rs, s =>
    ((respond s r).1 :: (respondAll respond rs (respond s r).2).1,
      (respondAll respond rs (respond s r).2).2)

/-- Nothing is shown in both, or infos that match. -/
def SameInfo : Option FileInfo → Option FileInfo → Prop
  | none, none => True
  | some info, some info' => info.Matches info'
  | _, _ => False

/-- The responses are alike one by one, and the trees hold the same objects with the same
contents. -/
def SameRun (lists : List Response × MemoryWorld) (modes : List Response × FileSystem) : Prop :=
  List.Forall₂ (Alike SameInfo) lists.1 modes.1 ∧ lists.2.files.root.SameShape modes.2.root

section

variable {loc : Location} {w : MemoryWorld} {fs : FileSystem}

theorem Simulates.silent {α β : Type} {R : α → β → Prop}
    {lists : Except Error α × MemoryWorld} {modes : Except Error β × FileSystem}
    (simulates : Simulates loc R lists modes) :
    Simulates loc SameInfo (silent lists) (silent modes) := by
  obtain ⟨results, states⟩ := simulates
  refine ⟨?_, states⟩
  rcases lists with ⟨_ | _, w⟩ <;> rcases modes with ⟨_ | _, fs⟩ <;> first | exact results | trivial

theorem Simulates.shown {lists : Except Error FileInfo × MemoryWorld}
    {modes : Except Error FileInfo × FileSystem}
    (simulates : Simulates loc FileInfo.Matches lists modes) :
    Simulates loc SameInfo (shown lists) (shown modes) := by
  obtain ⟨results, states⟩ := simulates
  refine ⟨?_, states⟩
  rcases lists with ⟨_ | _, w⟩ <;> rcases modes with ⟨_ | _, fs⟩ <;> exact results

/-- One request, whatever it is, is answered alike and leaves states that agree. -/
theorem Agree.respond (agree : Agree loc w fs) (r : Request) (below : r.path.Below loc)
    (fits : r.Fits) : Simulates loc SameInfo (r.onLists w) (r.onModes fs) := by
  cases r with
  | chmod path mode => exact (agree.chmod below mode).silent
  | mkdir path mode => exact (agree.mkdir below fits mode).silent
  | mkdirAll path mode => exact (agree.mkdirAll below fits mode).silent
  | openFile path flags mode => exact (agree.openFile below flags mode).silent
  | writeFile path bytes mode => exact (agree.writeFile below bytes mode).silent
  | stat path => exact (agree.stat below).shown

theorem Agree.respondAll (agree : Agree loc w fs) (requests : List Request)
    (below : ∀ r ∈ requests, r.path.Below loc) (fits : ∀ r ∈ requests, r.Fits) :
    List.Forall₂ (Alike SameInfo) (respondAll Request.onLists requests w).1
        (respondAll Request.onModes requests fs).1 ∧
      Agree loc (respondAll Request.onLists requests w).2
        (respondAll Request.onModes requests fs).2 := by
  induction requests generalizing w fs with
  | nil => exact ⟨.nil, agree⟩
  | cons r rs ih =>
    obtain ⟨first, next⟩ := agree.respond r (below r List.mem_cons_self) (fits r List.mem_cons_self)
    obtain ⟨others, last⟩ := ih next (fun r member => below r (List.mem_cons_of_mem _ member))
      fun r member => fits r (List.mem_cons_of_mem _ member)
    exact ⟨.cons first others, last⟩

/-- The directory is empty, nothing is broken, and objects belong to the user. -/
structure Fresh (loc : Location) (w : MemoryWorld) : Prop where
  empty : ∃ mode, w.files.root.get? loc = some (.directory mode [])
  calm : w.backend.faults = .none
  owned : w.backend.owner = MemoryBackend.userSid
  grouped : w.backend.group = MemoryBackend.groupSid

theorem Fresh.agree (fresh : Fresh loc w) : Agree loc w { w.files with umask := ⟨0⟩ } := by
  obtain ⟨mode, empty⟩ := fresh.empty
  have unmasked : Mode.perm ⟨0⟩ = ⟨0⟩ := by decide
  refine ⟨fun _ => rfl, ⟨mode, Node.faceAt_directory.mpr ⟨[], empty⟩⟩, unmasked, fresh.calm,
    fresh.owned, fresh.grouped, fun rest f some_ found => ?_⟩
  obtain ⟨name, rest, rfl⟩ := List.exists_cons_of_ne_nil some_
  rw [Node.faceAt, Node.get?_append] at found
  dsimp only at found
  rw [empty] at found
  cases found

/-- The same requests below a directory that is empty at first are answered alike by files with
lists and by files with modes, and leave trees of the same shape. -/
theorem runs_agree (fresh : Fresh loc w) (requests : List Request)
    (below : ∀ r ∈ requests, r.path.Below loc) (fits : ∀ r ∈ requests, r.Fits) :
    SameRun (respondAll Request.onLists requests w)
      (respondAll Request.onModes requests { w.files with umask := ⟨0⟩ }) := by
  obtain ⟨responses, states⟩ := fresh.agree.respondAll requests below fits
  exact ⟨responses, states.shape⟩

/-- Nothing but an empty directory. -/
def emptyDirectory : MemoryWorld :=
  ⟨⟨.directory ⟨0o755⟩ [("d", .directory ⟨0o2755⟩ [])], .linked [], ⟨0o022⟩⟩, .initial⟩

theorem fresh_emptyDirectory : Fresh ["d"] emptyDirectory :=
  ⟨⟨⟨0o2755⟩, by rfl⟩, rfl, rfl, rfl⟩

theorem runs_agree_emptyDirectory :
    SameRun
      (respondAll Request.onLists [.mkdirAll ⟨"/d/a//b/"⟩ ⟨0o1750⟩,
        .writeFile ⟨"/d/a/f"⟩ [1, 2] ⟨0o100604⟩, .mkdir ⟨"/d/a/f"⟩ ⟨0o755⟩,
        .chmod ⟨"/d/a/"⟩ ⟨0o711⟩, .stat ⟨"/d/a/f"⟩] emptyDirectory)
      (respondAll Request.onModes [.mkdirAll ⟨"/d/a//b/"⟩ ⟨0o1750⟩,
        .writeFile ⟨"/d/a/f"⟩ [1, 2] ⟨0o100604⟩, .mkdir ⟨"/d/a/f"⟩ ⟨0o755⟩,
        .chmod ⟨"/d/a/"⟩ ⟨0o711⟩, .stat ⟨"/d/a/f"⟩]
          { emptyDirectory.files with umask := ⟨0⟩ }) := by
  have above : Path.Below ["d"] ⟨"/d/a//b/"⟩ :=
    ⟨⟨by decide, by decide, by decide⟩, ["a", "b"], by decide, by decide⟩
  have file : Path.Below ["d"] ⟨"/d/a/f"⟩ :=
    ⟨⟨by decide, by decide, by decide⟩, ["a", "f"], by decide, by decide⟩
  have dir : Path.Below ["d"] ⟨"/d/a/"⟩ :=
    ⟨⟨by decide, by decide, by decide⟩, ["a"], by decide, by decide⟩
  have checked : Path.check ⟨"/d/a//b/"⟩ = .ok () := by rfl
  refine runs_agree fresh_emptyDirectory _ ?_ ?_
  · simp only [List.forall_mem_cons, Request.path]
    exact ⟨above, file, file, dir, file, by simp⟩
  · simp only [List.forall_mem_cons, Request.Fits]
    exact ⟨checked, trivial, fun _ _ _ _ => by decide, trivial, trivial, by simp⟩

/-- A path with more slashes than the system takes, all but one of which an absolute path drops. -/
def slashes : Path := .ofFields (List.replicate maxPathLength "" ++ ["d", "a"])

theorem pieces_slashes : slashes.pieces = List.replicate maxPathLength "" ++ ["d", "a"] := by
  refine Path.pieces_ofFields (by simp) fun piece member => ?_
  rcases List.mem_append.mp member with empty | named
  · simp [List.eq_of_mem_replicate empty, Path.Slashless]
  · simp only [List.mem_cons, List.not_mem_nil, or_false] at named
    rcases named with rfl | rfl <;> simp [Path.Slashless]

theorem names_slashes : slashes.names = ["d", "a"] := by
  rw [Path.names, pieces_slashes, List.filter_append, List.filter_replicate]
  rfl

theorem below_slashes : slashes.Below ["d"] := by
  have parts : slashes.pieces = "" :: "" :: (List.replicate (maxPathLength - 2) "" ++ ["d", "a"]) := by
    rw [pieces_slashes]
    rfl
  refine ⟨⟨Path.rooted_of_pieces parts, ?_, ?_⟩, ["a"], by simp, names_slashes⟩
  · simp [pieces_slashes, List.mem_replicate]
  · simp [pieces_slashes, List.mem_replicate]

/-- With lists, the directory is created. -/
theorem mkdir_slashes (mode : Mode) :
    ∃ w, (AclFiles.mkdir slashes mode).run memoryBackend emptyDirectory = (.ok (), w) := by
  obtain ⟨whole, absolute, respells⟩ :=
    below_slashes.plain.absolute (by rw [names_slashes]; simp)
  have named : whole.names = ["d"] ++ ["a"] := respells.names.trans names_slashes
  have free : LinkFree emptyDirectory.files.root [] whole.names := by
    rw [respells.names]
    exact fresh_emptyDirectory.agree.linkFree below_slashes.along
  have inside : ∃ mode, emptyDirectory.files.root.faceAt [] = some (.directory mode) :=
    ⟨⟨0o755⟩, by rfl⟩
  have checked : whole.check = .ok () := by
    refine respells.check_iff.mpr ⟨?_, ?_⟩
    · have other : '\x00' ≠ '/' := by decide
      rw [Path.mem_text_iff other, pieces_slashes]
      rintro ⟨piece, member, nul⟩
      simp only [List.mem_append, List.mem_replicate, List.mem_cons, List.not_mem_nil,
        or_false] at member
      rcases member with ⟨-, rfl⟩ | rfl | rfl <;> exact absurd nul (by decide)
    · have tight := respells.tight
      rw [names_slashes] at tight
      exact Nat.lt_of_le_of_lt tight (by decide)
  have looked : lookIn emptyDirectory.files.root [] ["d"] = .ok () := by rfl
  have short : ¬ maxNameLength < "a".utf8ByteSize := by decide
  have absent : emptyDirectory.files.root.faceAt (["d"] ++ ["a"]) = none := by rfl
  have made := createDirectory_eq respells.plain free inside named checked defaultDirectoryMode
  rw [looked] at made
  dsimp only at made
  rw [if_neg short, absent] at made
  exact ⟨_, AclFiles.run_mkdir_calm rfl (absolute _) made (isDirectory_insert respells.plain free
    inside checked named looked short absent _) mode⟩

/-- A NUL in the last name comes to light only after the directory above has been created, and only
with lists; a path with too many slashes is refused, but only with modes. -/
theorem not_runs_agree :
    Fresh ["d"] emptyDirectory ∧
    (Path.Below ["d"] ⟨"/d/a/\x00"⟩ ∧
      ¬ SameRun
        (respondAll Request.onLists [.mkdirAll ⟨"/d/a/\x00"⟩ ⟨0o755⟩] emptyDirectory)
        (respondAll Request.onModes [.mkdirAll ⟨"/d/a/\x00"⟩ ⟨0o755⟩]
          { emptyDirectory.files with umask := ⟨0⟩ })) ∧
    (slashes.Below ["d"] ∧
      ¬ SameRun (respondAll Request.onLists [.mkdir slashes ⟨0o755⟩] emptyDirectory)
        (respondAll Request.onModes [.mkdir slashes ⟨0o755⟩]
          { emptyDirectory.files with umask := ⟨0⟩ })) := by
  refine ⟨fresh_emptyDirectory, ⟨?_, ?_⟩, below_slashes, ?_⟩
  · exact ⟨⟨by decide, by decide, by decide⟩, ["a", "\x00"], by decide, by decide⟩
  · rintro ⟨-, shape⟩
    exact absurd (shape ["d", "a"]) (by decide +kernel)
  · rintro ⟨responses, -⟩
    obtain ⟨w, made⟩ := mkdir_slashes ⟨0o755⟩
    rcases checked : slashes.check with e | _
    · have refused : createDirectory { emptyDirectory.files with umask := ⟨0⟩ } slashes
          (Mode.modeBits ⟨0o755⟩) = .error e := createDirectory_of_check checked _
      simp only [respondAll, Request.onLists, Request.onModes, made, Native.mkdir, refused] at responses
      cases responses with
      | cons first rest => exact first
    · have size := Path.size_eq_weight slashes
      obtain ⟨-, -, short⟩ := Path.check_eq_ok_iff.mp checked
      have rest : Path.weight ["d", "a"] = 4 := by decide
      rw [pieces_slashes, Path.weight_append, Path.weight_replicate, rest] at size
      omega

end

end ModeAcl
