import ModeAcl.Proofs.AgreeingRuns
import ModeAcl.Proofs.Creating
import ModeAcl.Proofs.Deeds
import ModeAcl.Proofs.LastPut

/-!
# What creating a directory and those above it leaves

Over the backend in memory, under any faults. The paths above that are no
directories come last, seen from the outside; they are created in this order, each
with its list, until one fails (`Footprint`). Whatever fails there is undone,
unless the backend has littered the new directory: then this directory stays,
without a list, and the error says that it could not be removed. No mode keeps a
directory from being created or removed.
-/

namespace ModeAcl

open FileSystem

variable {w w' : MemoryWorld} {mode : Mode}

/-! ## What the backend does to files -/

/-- A call that sets no list leaves the files alone. -/
theorem files_of_not_sets {c : MemoryCall} (other : ¬ (Call.security c).Sets) :
    (memoryBackend.respond (.security c) w).2.files = w.files := by
  simp only [Backend.respond, memoryBackend, MemoryBackend.answer]
  rcases w.backend.faults.strike (MemoryBackend.point c) with ⟨_ | fault, faults⟩ <;>
    cases c <;> first | rfl | exact absurd trivial other

/-- A call that sets a list leaves the files alone if it succeeds. If it fails, the object may have
been discarded or littered. -/
theorem files_of_setAcl (path : Path) (aces : List Ace) :
    match memoryBackend.respond (.security (.setAcl path aces)) w with
    | (.ok (), w') => w'.files = w.files
    | (.error e, w') => w'.files = w.files ∨ w'.files = w.files.discard path ∨
        e.kind = .permissionDenied ∧ MemoryBackend.litter w.files path = .ok w'.files := by
  simp only [Backend.respond, memoryBackend, MemoryBackend.answer]
  rcases w.backend.faults.strike (MemoryBackend.point (.setAcl path aces)) with
    ⟨_ | fault, faults⟩
  · simp only [MemoryBackend.serve, MemoryBackend.setAcl]
    by_cases broken : faults.brokenSet = true
    · rw [if_pos broken]
      by_cases litters : faults.litters = true
      · rw [if_pos litters]
        rcases MemoryBackend.litter w.files path with e | littered
        · exact Or.inl rfl
        · exact Or.inr (Or.inr ⟨rfl, rfl⟩)
      · rw [if_neg litters]
        exact Or.inl rfl
    · rw [if_neg broken]
      by_cases there : w.files.hasObject path = true
      · rw [if_pos there]
      · rw [if_neg there]
        exact Or.inl rfl
  · simp only [MemoryBackend.ravage]
    by_cases removes : fault.removes = true
    · rw [if_pos removes]
      exact Or.inr (Or.inl rfl)
    · rw [if_neg removes]
      exact Or.inl rfl

theorem files_of_explicitEntries (masks : TriadMasks) (trustees : Trustees) (w : MemoryWorld) :
    ((explicitEntries masks trustees).run memoryBackend w).2.files = w.files := by
  refine (explicitEntries_within masks trustees).preserves
    (R := fun w w' : MemoryWorld => w'.files = w.files) (fun _ => rfl)
    (fun first second => second.trans first) ?_ w
  rintro (c | c | c) resolves w
  · exact files_of_not_sets (Call.Resolves.not_sets _ resolves)
  · cases resolves
  · rfl

theorem files_of_applyMode_ok {path : Path} {isDirectory : Bool} {trustees : Trustees}
    (ran : (applyMode path mode isDirectory trustees).run memoryBackend w = (.ok (), w')) :
    w'.files = w.files := by
  obtain ⟨grants, acl, found, built, entries, building, setting⟩ := applyMode_ok ran
  have resolving := files_of_explicitEntries (.ofMode mode isDirectory) trustees w
  have listing : (memoryBackend.respond (.security (.buildAcl grants)) found).2.files =
      found.files := files_of_not_sets id
  have putting := files_of_setAcl (w := built) path acl
  rw [entries] at resolving
  rw [building] at listing
  rw [setting] at putting
  exact putting.trans (listing.trans resolving)

theorem files_of_applyMode_error {path : Path} {isDirectory : Bool} {trustees : Trustees}
    {e : Error}
    (ran : (applyMode path mode isDirectory trustees).run memoryBackend w = (.error e, w')) :
    w'.files = w.files ∨ w'.files = w.files.discard path ∨
      e.kind = .permissionDenied ∧ MemoryBackend.litter w.files path = .ok w'.files := by
  have resolving := files_of_explicitEntries (.ofMode mode isDirectory) trustees w
  rcases applyMode_error ran with failed | ⟨grants, found, e', entries, stopped⟩
  · rw [failed] at resolving
    exact Or.inl resolving
  have listing : (memoryBackend.respond (.security (.buildAcl grants)) found).2.files =
      found.files := files_of_not_sets id
  rw [entries] at resolving
  rcases stopped with ⟨refused, -⟩ | ⟨acl, built, building, refused, rfl⟩
  · rw [refused] at listing
    exact Or.inl (listing.trans resolving)
  · have putting := files_of_setAcl (w := built) path acl
    rw [building] at listing
    rw [refused] at putting
    have same : built.files = w.files := listing.trans resolving
    rw [same] at putting
    exact putting

/-! ## One directory -/

/-- The list that a new directory gets. -/
abbrev directoryAces (mode : Mode) : List Ace := modeAces mode true .currentUser

/-- How an attempt to create a directory ends, with what is done in it. -/
inductive MkdirEnd (mode : Mode) (q : Path) (w : MemoryWorld) :
    Except Error Unit → MemoryWorld → List (Deed (List Ace)) → Prop
  | made {whole : Path} {w' : MemoryWorld} : w.files.absolute q = .ok whole →
      w.files.createDirectory whole defaultDirectoryMode = .ok w'.files →
      w'.backend.store = w.backend.store.put whole.key (directoryAces mode) →
      MkdirEnd mode q w (.ok ()) w'
        [.created whole, .listed whole (directoryAces mode)]
  | undone {e : Error} {w' : MemoryWorld} {ds : List (Deed (List Ace))} :
      w'.files = w.files → w'.backend.store = w.backend.store →
      (∀ path aces, .listed path aces ∉ ds) → MkdirEnd mode q w (.error e) w' ds
  | left {whole : Path} {e : Error} {removal : CallError} {w' : MemoryWorld} :
      w.files.absolute q = .ok whole → w.files.Littered whole w'.files →
      w'.backend.store = w.backend.store → e.kind ≠ .alreadyExists →
      MkdirEnd mode q w (.error (.cleanup e whole.text removal)) w' [.created whole]

theorem deedsIn_applyMode_memory {path : Path} {isDirectory : Bool} {trustees : Trustees}
    (ran : (applyMode path mode isDirectory trustees).run memoryBackend w = (.ok (), w')) :
    (applyMode path mode isDirectory trustees).deedsIn memoryBackend w =
      [.listed path (modeAces mode isDirectory trustees)] := by
  obtain ⟨grants, acl, found, built, entries, building, done⟩ := deedsIn_applyMode_ok ran
  rw [done, acl_of_buildAcl building, explicitEntries_ok trustees.resolvesTo_memory entries]
  rfl

namespace AclFiles

open Operation

theorem mkdir_end {q : Path} (straight : q.Straight) (sound : w.files.Sound) (mode : Mode) :
    MkdirEnd mode q w ((mkdir q mode).run memoryBackend w).1
      ((mkdir q mode).run memoryBackend w).2 ((mkdir q mode).deedsIn memoryBackend w) := by
  rw [run_mkdir, deedsIn_mkdir]
  rcases from_ : w.files.start? q with _ | start
  · rw [absolute_of_removed straight from_]
    exact .undone rfl rfl (by simp)
  obtain ⟨whole, absolute, plain, -⟩ := absolute_of_start straight sound from_
  rw [absolute]
  dsimp only
  rcases created : w.files.createDirectory whole defaultDirectoryMode with e | fs
  · exact .undone rfl rfl (by simp)
  obtain ⟨init, name, inner, vacant, rfl⟩ :=
    (createDirectory_eq_ok_iff plain sound.top).mp created
  dsimp only
  rw [run_applyOrRemoveDirectory, deedsIn_applyOrRemoveDirectory]
  rcases applied : (applyMode whole mode true .currentUser).run memoryBackend
    { w with files := w.files.withDirectory inner name defaultDirectoryMode } with ⟨e | _, w'⟩
  · rw [deedsIn_applyMode_error applied]
    dsimp only
    have stored := store_of_applyMode_error applied
    rcases files_of_applyMode_error applied with same | gone | ⟨denied, left⟩
    · dsimp only at same
      rw [same, vacant.removeDirectory_new sound]
      exact .undone rfl stored (by simp)
    · dsimp only at gone
      rw [gone, vacant.discard_new sound, vacant.removeDirectory_free]
      exact .undone (gone.trans (vacant.discard_new sound)) stored (by simp)
    · obtain ⟨bits, littered⟩ := vacant.litter_new sound left
      have there : w.files.Littered whole w'.files := ⟨init, name, inner, bits, vacant, littered⟩
      rw [there.removeDirectory]
      exact .left absolute there stored (by rw [denied]; decide)
  · have stored := store_of_applyMode_ok applied
    have kept := files_of_applyMode_ok applied
    rw [deedsIn_applyMode_memory applied]
    exact .made absolute (created.trans (congrArg Except.ok kept.symm)) stored

/-! ## Below a directory -/

theorem start?_of_child {fs : FileSystem} {p q : Path} {name : String} (child : p.Child q name) :
    fs.start? p = fs.start? q := by
  rw [FileSystem.start?, FileSystem.start?, child.alike]

/-- No directory is found below a path when its own creation has been attempted. -/
theorem isDirectory_below_mkdir {p q : Path} {name : String} (child : p.Child q name)
    (straight : q.Straight) (sound : w.files.Sound) {result : Except Error Unit}
    {ds : List (Deed (List Ace))} (ended : MkdirEnd mode q w result w' ds)
    (missing : w.files.isDirectory q = false) : w'.files.isDirectory p = false := by
  have named : IsName name := child.straight.isName (by rw [child.named]; simp)
  -- the names of the path lead nowhere, because those of `q` lead to a directory without them
  have nowhere : ∀ {whole : Path}, w.files.absolute q = .ok whole → w.files.Keeps w'.files →
      (∀ loc, ¬ w'.files.root.Arrives (whole.names ++ [name]) loc) →
        w'.files.isDirectory p = false := by
    intro whole absolute keeps free
    obtain ⟨start, from_, -, names⟩ := start?_of_absolute straight sound absolute
    have from' : w'.files.start? p = some start := by
      rw [keeps.start?, start?_of_child child, from_]
    rw [Bool.eq_false_iff, Ne, isDirectory_iff_arrives (keeps.sound sound) from', child.named,
      ← List.append_assoc, ← names]
    rintro ⟨-, loc, arrives⟩
    exact free loc arrives
  cases ended with
  | @made whole _ absolute created _ =>
    obtain ⟨start, -, plain, -⟩ := start?_of_absolute straight sound absolute
    obtain ⟨init, own, inner, vacant, same⟩ :=
      (createDirectory_eq_ok_iff plain sound.top).mp created
    refine nowhere absolute (same ▸ vacant.keeps _) fun loc => ?_
    rw [same]
    exact (vacant.arrives_new _).not_below named (vacant.empty _ (by simp))
  | undone same _ _ =>
    rw [same, Bool.eq_false_iff]
    intro found
    rw [isDirectory_of_child child sound found] at missing
    cases missing
  | left absolute littered _ _ =>
    exact nowhere absolute littered.keeps fun loc => littered.not_below named

/-- Someone else being faster is never the reason. -/
theorem orFound_of_mkdirEnd {q : Path} {result : Except Error Unit}
    {ds : List (Deed (List Ace))} (ended : MkdirEnd mode q w result w' ds)
    (missing : w.files.isDirectory q = false) : orFound q (result, w') = (result, w') := by
  cases ended with
  | made _ _ _ => rfl
  | undone same _ _ =>
    rw [orFound, same, missing, if_neg]
    simp
  | left _ _ _ other =>
    rw [orFound, if_neg]
    exact fun both => other both.1

/-! ## One after the other -/

/-- Directories that have been created one after the other, each with its list. -/
structure Made (mode : Mode) (w : MemoryWorld) (qs wholes : List Path) (fs : FileSystem)
    (store : ListStore) : Prop where
  absolute : qs.map w.files.absolute = wholes.map .ok
  files : w.files.createAll wholes = .ok fs
  store : store = w.backend.store.putAll
    (wholes.map fun whole => .applied whole.key mode true .currentUser)

/-- What comes of creating directories that are missing, the outermost first. -/
inductive Footprint (mode : Mode) (w : MemoryWorld) : List Path →
    Except Error Unit → MemoryWorld → List (Deed (List Ace)) → Prop
  | made {news wholes : List Path} {w' : MemoryWorld} :
      Made mode w news wholes w'.files w'.backend.store →
      Footprint mode w news (.ok ()) w' (making (directoryAces mode) wholes)
  | undone {done rest wholes : List Path} {q : Path} {e : Error} {w' : MemoryWorld}
      {ds : List (Deed (List Ace))} : Made mode w done wholes w'.files w'.backend.store →
      (∀ path aces, .listed path aces ∉ ds) → (∀ r ∈ q :: rest, w'.files.isDirectory r = false) →
      Footprint mode w (done ++ q :: rest) (.error e) w' (making (directoryAces mode) wholes ++ ds)
  | left {done rest wholes : List Path} {q whole : Path} {fs : FileSystem} {e : Error}
      {removal : CallError} {w' : MemoryWorld} : Made mode w done wholes fs w'.backend.store →
      w.files.absolute q = .ok whole → fs.Littered whole w'.files →
      (∀ r ∈ rest, w'.files.isDirectory r = false) →
      Footprint mode w (done ++ q :: rest) (.error (.cleanup e whole.text removal)) w'
        (making (directoryAces mode) wholes ++ [.created whole])

theorem Made.nil : Made mode w [] [] w.files w.backend.store := ⟨rfl, rfl, rfl⟩

theorem Made.snoc {qs wholes : List Path} {fs fs' : FileSystem} {store : ListStore}
    {q whole : Path} (made : Made mode w qs wholes fs store)
    (absolute : w.files.absolute q = .ok whole)
    (created : fs.createDirectory whole defaultDirectoryMode = .ok fs') :
    Made mode w (qs ++ [q]) (wholes ++ [whole]) fs'
      (store.put whole.key (directoryAces mode)) := by
  refine ⟨?_, ?_, ?_⟩
  · rw [List.map_append, List.map_append, made.absolute, List.map_singleton, absolute]
    rfl
  · rw [createAll_append made.files]
    exact createAll_cons_eq_ok_iff.mpr ⟨fs', created, rfl⟩
  · rw [List.map_append, ListStore.putAll_append, ← made.store]
    rfl

/-- Every directory that was created is the absolute path of a missing one. -/
theorem Made.exists_absolute {qs wholes : List Path} {fs : FileSystem} {store : ListStore}
    (made : Made mode w qs wholes fs store) {whole : Path} (member : whole ∈ wholes) :
    ∃ q ∈ qs, w.files.absolute q = .ok whole := by
  have image : .ok whole ∈ qs.map w.files.absolute := by
    rw [made.absolute]
    exact List.mem_map_of_mem member
  exact List.mem_map.mp image

theorem Made.exists_whole {qs wholes : List Path} {fs : FileSystem} {store : ListStore}
    (made : Made mode w qs wholes fs store) {q : Path} (member : q ∈ qs) :
    ∃ whole ∈ wholes, w.files.absolute q = .ok whole := by
  have image : w.files.absolute q ∈ wholes.map .ok := by
    rw [← made.absolute]
    exact List.mem_map_of_mem member
  obtain ⟨whole, there, same⟩ := List.mem_map.mp image
  exact ⟨whole, there, same.symm⟩

theorem Made.plain {qs wholes : List Path} {fs : FileSystem} {store : ListStore}
    (made : Made mode w qs wholes fs store) (straight : ∀ q ∈ qs, q.Straight)
    (sound : w.files.Sound) {whole : Path} (member : whole ∈ wholes) : whole.Plain := by
  obtain ⟨q, there, absolute⟩ := made.exists_absolute member
  obtain ⟨-, -, plain, -⟩ := start?_of_absolute (straight q there) sound absolute
  exact plain

theorem Made.keeps {qs wholes : List Path} {fs : FileSystem} {store : ListStore}
    (made : Made mode w qs wholes fs store) (straight : ∀ q ∈ qs, q.Straight)
    (sound : w.files.Sound) :
    w.files.Keeps fs ∧ ∀ whole ∈ wholes, fs.isDirectory whole = true :=
  createAll_spec (fun _ member => made.plain straight sound member) sound made.files

theorem Footprint.keeps {news : List Path} {result : Except Error Unit}
    {ds : List (Deed (List Ace))} (foot : Footprint mode w news result w' ds)
    (straight : ∀ q ∈ news, q.Straight) (sound : w.files.Sound) : w.files.Keeps w'.files := by
  cases foot with
  | made made => exact (made.keeps straight sound).1
  | undone made _ _ =>
    exact (made.keeps (fun q member => straight q (List.mem_append_left _ member)) sound).1
  | left made _ littered _ =>
    exact (made.keeps (fun q member => straight q (List.mem_append_left _ member)) sound).1.trans
      littered.keeps

/-- After a failure, one more path behind the others is no directory. -/
theorem Footprint.snoc_of_error {p : Path} {front : List Path} {e : Error}
    {ds : List (Deed (List Ace))} (foot : Footprint mode w front (.error e) w' ds)
    (absent : w'.files.isDirectory p = false) :
    Footprint mode w (front ++ [p]) (.error e) w' ds := by
  have still : ∀ {rest : List Path}, (∀ r ∈ rest, w'.files.isDirectory r = false) →
      ∀ r ∈ rest ++ [p], w'.files.isDirectory r = false := by
    intro rest missing r member
    rw [List.mem_append, List.mem_singleton] at member
    rcases member with old | rfl
    · exact missing r old
    · exact absent
  cases foot with
  | undone made unlisted missing =>
    rw [List.append_assoc, List.cons_append]
    exact .undone made unlisted (still missing)
  | left made absolute littered missing =>
    rw [List.append_assoc, List.cons_append]
    exact .left made absolute littered (still missing)

/-- After a success, the creation of one more directory is attempted. -/
theorem Footprint.snoc_of_ok {w₁ w₂ : MemoryWorld} {p : Path} {front : List Path}
    {result : Except Error Unit} {ds es : List (Deed (List Ace))}
    (foot : Footprint mode w front (.ok ()) w₁ ds) (keeps : w.files.Keeps w₁.files)
    (missing : w₁.files.isDirectory p = false) (ended : MkdirEnd mode p w₁ result w₂ es) :
    Footprint mode w (front ++ [p]) result w₂ (ds ++ es) := by
  cases foot with
  | @made _ wholes _ made =>
    cases ended with
    | @made whole _ absolute created stored =>
      rw [keeps.absolute] at absolute
      have more := made.snoc absolute created
      rw [← stored] at more
      have deeds_ : making (directoryAces mode) wholes ++
          [.created whole, .listed whole (directoryAces mode)] =
            making (directoryAces mode) (wholes ++ [whole]) := by simp [making]
      rw [deeds_]
      exact .made more
    | undone same stored unlisted =>
      rw [← same, ← stored] at made
      refine .undone made unlisted fun r member => ?_
      rw [List.mem_singleton.mp member, same]
      exact missing
    | left absolute littered stored _ =>
      rw [keeps.absolute] at absolute
      rw [← stored] at made
      exact .left made absolute littered (by simp)

/-- One more directory, behind those that have been created above it. -/
theorem footprint_step {p : Path} {above news : List Path} (straight : p.Straight)
    (others : ∀ q ∈ news, q.Straight) (sound : w.files.Sound)
    (missing : w.files.isDirectory p = false)
    (foot : Footprint mode w news.reverse ((mkdirEach mode above).run memoryBackend w).1
      ((mkdirEach mode above).run memoryBackend w).2
      ((mkdirEach mode above).deedsIn memoryBackend w))
    (later : ((mkdirEach mode above).run memoryBackend w).2.files.isDirectory p = false) :
    Footprint mode w (p :: news).reverse ((mkdirEach mode (p :: above)).run memoryBackend w).1
        ((mkdirEach mode (p :: above)).run memoryBackend w).2
        ((mkdirEach mode (p :: above)).deedsIn memoryBackend w) ∧
      ∀ c name, Path.Child c p name →
        ((mkdirEach mode (p :: above)).run memoryBackend w).2.files.isDirectory c = false := by
  have keeps := foot.keeps (fun q member => others q (List.mem_reverse.mp member)) sound
  rw [run_mkdirEach, deedsIn_mkdirEach, missing, List.reverse_cons]
  simp only [Bool.false_eq_true, if_false]
  rcases ran : (mkdirEach mode above).run memoryBackend w with ⟨e | _, w₁⟩
  · rw [ran] at foot later keeps
    refine ⟨?_, fun c name child => ?_⟩
    · rw [List.append_nil]
      exact foot.snoc_of_error later
    · rw [Bool.eq_false_iff]
      intro found
      rw [isDirectory_of_child child (keeps.sound sound) found] at later
      cases later
  · rw [ran] at foot later keeps
    have ended := mkdir_end straight (keeps.sound sound) mode
    dsimp only
    rw [orFound_of_mkdirEnd ended later]
    exact ⟨foot.snoc_of_ok keeps later ended, fun c name child =>
      isDirectory_below_mkdir child straight (keeps.sound sound) ended later⟩

/-- The paths that are no directories come first in the chain; what they leave is their footprint. The
induction is on the chain, and what carries it is that a path below all of them has not become a
directory. -/
theorem mkdirEach_footprint {paths : List Path} (chain : Path.Upward paths)
    (sound : w.files.Sound) (mode : Mode) :
    ∃ news olds, paths = news ++ olds ∧ (∀ q ∈ olds, w.files.isDirectory q = true) ∧
      (∀ q ∈ news, w.files.isDirectory q = false) ∧
      Footprint mode w news.reverse ((mkdirEach mode paths).run memoryBackend w).1
        ((mkdirEach mode paths).run memoryBackend w).2
        ((mkdirEach mode paths).deedsIn memoryBackend w) ∧
      ∀ p q name, paths.head? = some q → Path.Child p q name → w.files.isDirectory p = false →
        ((mkdirEach mode paths).run memoryBackend w).2.files.isDirectory p = false := by
  induction chain with
  | @top q straight _ =>
    by_cases found : w.files.isDirectory q = true
    · refine ⟨[], [q], rfl, by simpa using found, by simp, ?_, ?_⟩ <;>
        rw [run_mkdirEach, if_pos found]
      · rw [deedsIn_mkdirEach, if_pos found]
        exact .made .nil
      · exact fun _ _ _ _ _ missing => missing
    · have missing : w.files.isDirectory q = false := Bool.eq_false_iff.mpr found
      have none : Footprint mode w [].reverse ((mkdirEach mode []).run memoryBackend w).1
          ((mkdirEach mode []).run memoryBackend w).2
          ((mkdirEach mode []).deedsIn memoryBackend w) := .made .nil
      obtain ⟨foot, below⟩ := footprint_step straight (by simp) sound missing none missing
      refine ⟨[q], [], rfl, by simp, by simpa using missing, foot, ?_⟩
      rintro p _ name ⟨⟩ child -
      exact below p name child
  | @step q r above name child chain ih =>
    by_cases found : w.files.isDirectory q = true
    · refine ⟨[], q :: r :: above, rfl, ?_, by simp, ?_, ?_⟩
      · intro other member
        rcases List.mem_cons.mp member with rfl | higher
        · exact found
        · exact isDirectory_of_upward (.step child chain) sound found higher
      · rw [run_mkdirEach, if_pos found, deedsIn_mkdirEach, if_pos found]
        exact .made .nil
      · rw [run_mkdirEach, if_pos found]
        exact fun _ _ _ _ _ missing => missing
    · have missing : w.files.isDirectory q = false := Bool.eq_false_iff.mpr found
      obtain ⟨news, olds, parts, there, absent, foot, fresh⟩ := ih
      have straight : ∀ p ∈ news, p.Straight := fun p member =>
        chain.straight (parts ▸ List.mem_append_left _ member)
      obtain ⟨foot', below⟩ := footprint_step child.straight straight sound missing foot
        (fresh q r name rfl child missing)
      refine ⟨q :: news, olds, by rw [parts]; rfl, there, ?_, foot', ?_⟩
      · intro p member
        rcases List.mem_cons.mp member with rfl | higher
        · exact missing
        · exact absent p higher
      · rintro p _ name ⟨⟩ child -
        exact below p name child

/-! ## The whole call -/

/-- The absolute paths are directories, and so are those of the paths that the system does not find
too long to look up. -/
def Present (fs : FileSystem) (qs wholes : List Path) : Prop :=
  (∀ whole ∈ wholes, fs.isDirectory whole = true) ∧
    ∀ q ∈ qs, q.text.utf8ByteSize < maxPathLength → fs.isDirectory q = true

theorem Made.present {olds qs wholes : List Path} {fs fs' : FileSystem} {store : ListStore}
    (made : Made mode w qs wholes fs store) (straight : ∀ q ∈ olds ++ qs, q.Straight)
    (sound : w.files.Sound) (there : ∀ q ∈ olds, w.files.isDirectory q = true)
    (keeps : fs.Keeps fs') : Present fs' (olds ++ qs) wholes := by
  have straight' : ∀ q ∈ qs, q.Straight := fun q member =>
    straight q (List.mem_append_right _ member)
  obtain ⟨before, created⟩ := made.keeps straight' sound
  have all := before.trans keeps
  have present : ∀ whole ∈ wholes, fs'.isDirectory whole = true := fun whole member =>
    keeps.isDirectory (before.sound sound) (made.plain straight' sound member).straight
      (created whole member)
  refine ⟨present, fun q member short => ?_⟩
  rcases List.mem_append.mp member with old | new
  · exact all.isDirectory sound (straight q member) (there q old)
  · obtain ⟨whole, made, absolute⟩ := made.exists_whole new
    exact isDirectory_of_absolute (straight q member) (all.sound sound)
      ((all.absolute q).trans absolute) (present whole made) short

theorem exchangesIn_mkdirEach_of_isDirectory {path : Path} {above : List Path}
    (found : w.files.isDirectory path = true) :
    (mkdirEach mode (path :: above)).exchangesIn memoryBackend w =
      [⟨.file (.metadata path), (memoryBackend.respond (.file (.metadata path)) w).1⟩] := by
  have probe : (probeDirectory path : Procedure (List Ace) MemoryDescriptor Bool).exchanges
      memoryBackend.respond w =
        [⟨.file (.metadata path), (memoryBackend.respond (.file (.metadata path)) w).1⟩] := by
    show _ :: _ = _
    rcases memoryBackend.respond (.file (.metadata path)) w with ⟨_ | _, _⟩ <;> rfl
  rw [exchangesIn, mkdirEach, ofProcedure, result, Procedure.exchanges_bind, run_probeDirectory,
    probe]
  dsimp only
  rw [if_pos found]
  rfl

/-- What `mkdirAll` leaves, whatever of the backend is broken and whichever of its calls fail. The
paths above and including the path itself that are no directories come last, from the outside.
If the call succeeds, they have been created in this order under their absolute paths, each with the
list of the mode, and nothing else has been done; all of them are directories then, up to those whose
texts are too long for the system. If it fails, this holds for some of them (`done`); the next one
(`q`) is either not there and nothing else has changed, or it has been created and littered by the
backend, and then the error tells that it could not be removed again. If the path was a directory to
begin with, nothing more than this is found out. -/
theorem mkdirAll_footprint {path : Path} (filled : path.text ≠ "") (noUp : ".." ∉ path.pieces)
    (sound : w.files.Sound) (mode : Mode) :
    (∃ olds news, path.ancestors.reverse = olds ++ news ∧
      (∀ q ∈ olds, w.files.isDirectory q = true) ∧
      (∀ q ∈ news, w.files.isDirectory q = false) ∧
      match (mkdirAll path mode).run memoryBackend w with
      | (.ok (), w') => ∃ wholes, Made mode w news wholes w'.files w'.backend.store ∧
          Present w'.files (olds ++ news) wholes ∧
          (mkdirAll path mode).deedsIn memoryBackend w = making (directoryAces mode) wholes
      | (.error e, w') => ∃ done q rest wholes fs, news = done ++ q :: rest ∧
          Made mode w done wholes fs w'.backend.store ∧
          Present w'.files (olds ++ done) wholes ∧
          (∀ r ∈ rest, w'.files.isDirectory r = false) ∧
          ((w'.files = fs ∧ w'.files.isDirectory q = false ∧
            ∃ ds, (mkdirAll path mode).deedsIn memoryBackend w =
                making (directoryAces mode) wholes ++ ds ∧
              ∀ p aces, .listed p aces ∉ ds) ∨
          ∃ whole cause removal, e = .cleanup cause whole.text removal ∧
            w.files.absolute q = .ok whole ∧ fs.Littered whole w'.files ∧
            (mkdirAll path mode).deedsIn memoryBackend w =
              making (directoryAces mode) wholes ++ [.created whole])) ∧
    (w.files.isDirectory path = true →
      (mkdirAll path mode).run memoryBackend w = (.ok (), w) ∧
        (mkdirAll path mode).exchangesIn memoryBackend w =
          [⟨.file (.metadata path), (memoryBackend.respond (.file (.metadata path)) w).1⟩]) := by
  have chain := Path.Straight.ancestors ⟨filled, noUp⟩
  refine ⟨?_, fun found => ?_⟩
  · obtain ⟨news, olds, parts, there, absent, foot, -⟩ := mkdirEach_footprint chain sound mode
    have straight : ∀ q ∈ olds.reverse ++ news.reverse, q.Straight := by
      intro q member
      rw [← List.reverse_append, List.mem_reverse, ← parts] at member
      exact chain.straight member
    have there' : ∀ q ∈ olds.reverse, w.files.isDirectory q = true := fun q member =>
      there q (List.mem_reverse.mp member)
    have missing : ∀ q ∈ news.reverse, w.files.isDirectory q = false := fun q member =>
      absent q (List.mem_reverse.mp member)
    refine ⟨olds.reverse, news.reverse, by rw [parts, List.reverse_append], there', missing, ?_⟩
    rw [mkdirAll]
    generalize news.reverse = front at foot straight
    generalize (mkdirEach mode path.ancestors).deedsIn memoryBackend w = ds at foot ⊢
    generalize (mkdirEach mode path.ancestors).run memoryBackend w = outcome at foot ⊢
    obtain ⟨e | _, w'⟩ := outcome
    · have before : ∀ {done rest : List Path} {q : Path}, front = done ++ q :: rest →
          ∀ p ∈ olds.reverse ++ done, p.Straight := by
        rintro done rest q rfl p member
        exact straight p (by
          rw [← List.append_assoc]
          exact List.mem_append_left _ member)
      cases foot with
      | @undone done rest wholes q _ _ ds made unlisted absent =>
        refine ⟨done, q, rest, wholes, w'.files, rfl, made,
          made.present (before rfl) sound there' (.refl _),
          fun r member => absent r (List.mem_cons_of_mem _ member),
          Or.inl ⟨rfl, absent q List.mem_cons_self, ds, rfl, unlisted⟩⟩
      | @left done rest wholes q whole fs cause removal _ made absolute littered absent =>
        exact ⟨done, q, rest, wholes, fs, rfl, made,
          made.present (before rfl) sound there' littered.keeps, absent,
          Or.inr ⟨whole, cause, removal, rfl, absolute, littered, rfl⟩⟩
    · cases foot with
      | @made _ wholes _ made =>
        exact ⟨wholes, made, made.present straight sound there' (.refl _), rfl⟩
  · obtain ⟨above, head⟩ := path.ancestors_head
    rw [mkdirAll, head]
    exact ⟨by rw [run_mkdirEach, if_pos found], exchangesIn_mkdirEach_of_isDirectory found⟩

theorem sound_emptyDirectory : emptyDirectory.files.Sound :=
  ⟨⟨⟨0o755⟩, by rfl⟩, by simp [emptyDirectory, WorkingDirectory.base]⟩

/-- Below a directory that is there, two levels are created. -/
theorem mkdirAll_footprint_of_two_levels :
    (Path.mk "/d/a/b").text ≠ "" ∧ ".." ∉ (Path.mk "/d/a/b").pieces ∧
      emptyDirectory.files.Sound ∧
      ∃ w', (mkdirAll ⟨"/d/a/b"⟩ ⟨0o750⟩).run memoryBackend emptyDirectory = (.ok (), w') ∧
        w'.files.isDirectory ⟨"/d/a/b"⟩ = true ∧
        ∃ wholes, (mkdirAll ⟨"/d/a/b"⟩ ⟨0o750⟩).deedsIn memoryBackend emptyDirectory =
          making (directoryAces ⟨0o750⟩) wholes := by
  have filled : (Path.mk "/d/a/b").text ≠ "" := by decide
  have noUp : ".." ∉ (Path.mk "/d/a/b").pieces := by decide
  have footprint := mkdirAll_footprint filled noUp sound_emptyDirectory ⟨0o750⟩
  have ran : ((mkdirAll ⟨"/d/a/b"⟩ ⟨0o750⟩).run memoryBackend emptyDirectory).1.isOk = true := by
    decide +kernel
  have own : (⟨"/d/a/b"⟩ : Path) ∈ (⟨"/d/a/b"⟩ : Path).ancestors.reverse := by decide +kernel
  refine ⟨filled, noUp, sound_emptyDirectory, ?_⟩
  rcases outcome : (mkdirAll ⟨"/d/a/b"⟩ ⟨0o750⟩).run memoryBackend emptyDirectory with ⟨_ | _, w'⟩
  · rw [outcome] at ran
    cases ran
  · rw [outcome] at footprint
    obtain ⟨⟨olds, news, parts, -, -, wholes, -, ⟨-, present⟩, deeds_⟩, -⟩ := footprint
    exact ⟨w', rfl, present ⟨"/d/a/b"⟩ (by rw [← parts]; exact own) (by decide), wholes, deeds_⟩

/-- A path that is too long only because of its slashes. -/
def manySlashes : Path := .ofFields ("" :: "d" :: (List.replicate maxPathLength "" ++ ["a"]))

theorem pieces_manySlashes :
    manySlashes.pieces = "" :: "d" :: (List.replicate maxPathLength "" ++ ["a"]) := by
  refine Path.pieces_ofFields (by simp) fun piece member => ?_
  simp only [List.mem_cons, List.mem_append, List.mem_replicate, List.not_mem_nil, or_false]
    at member
  rcases member with rfl | rfl | ⟨-, rfl⟩ | rfl <;> simp [Path.Slashless]

theorem names_manySlashes : manySlashes.names = ["d", "a"] := by
  rw [Path.names, pieces_manySlashes]
  simp only [List.filter_cons, List.filter_append, List.filter_replicate]
  rfl

theorem ancestors_manySlashes :
    ∃ above, manySlashes.ancestors = manySlashes :: ⟨"/d"⟩ :: above := by
  have split : manySlashes.cut = ([""], "d" :: (List.replicate maxPathLength "" ++ ["a"])) := by
    rw [Path.cut, pieces_manySlashes]
    rfl
  have kept : ("d" :: (List.replicate maxPathLength "" ++ ["a"])).rdropWhile Path.isFiller =
      ("d" :: List.replicate maxPathLength "") ++ ["a"] :=
    List.rdropWhile_concat_neg _ ("d" :: List.replicate maxPathLength "") _ (by decide)
  have only : ∀ n, ("d" :: List.replicate n "").rdropWhile Path.isFiller = ["d"] := by
    intro n
    induction n with
    | zero => rfl
    | succ n ih =>
      rw [List.replicate_succ', ← List.cons_append,
        List.rdropWhile_concat_pos _ _ _ (by decide), ih]
  have parent := Path.parent?_of_concat split kept
  have above : Path.ofPieces [""] ["d"] = ⟨"/d"⟩ := by decide
  rw [only, above] at parent
  have length : manySlashes.pieces.length = (maxPathLength + 2) + 1 := by
    simp [pieces_manySlashes]
  obtain ⟨above, head⟩ := Path.upwards_head (maxPathLength + 2) ⟨"/d"⟩
  refine ⟨above, ?_⟩
  rw [Path.ancestors, length, Path.upwards, parent]
  dsimp only
  rw [if_neg (by decide), head]

/-- That a call succeeds does not mean that the system finds the directory under this path: it was
created under a shorter one. -/
theorem not_isDirectory_of_mkdirAll_ok :
    ¬ ∀ (path : Path) (mode : Mode) (w w' : MemoryWorld), path.text ≠ "" → ".." ∉ path.pieces →
      w.files.Sound → (mkdirAll path mode).run memoryBackend w = (.ok (), w') →
        ∀ q ∈ path.ancestors, w'.files.isDirectory q = true := by
  intro claim
  have plain : manySlashes.Plain := by
    refine ⟨Path.rooted_of_pieces pieces_manySlashes, ?_, ?_⟩ <;>
      simp [pieces_manySlashes, List.mem_replicate]
  have tooLong : manySlashes.check ≠ .ok () := by
    intro checked
    obtain ⟨-, -, short⟩ := Path.check_eq_ok_iff.mp checked
    have thin : (List.replicate maxPathLength "" ++ ["a"]).Sublist manySlashes.pieces := by
      rw [pieces_manySlashes]
      exact ((List.Sublist.refl _).cons "d").cons ""
    have size := Path.weight_le_of_sublist thin
    have last : Path.weight ["a"] = 2 := by decide
    rw [Path.weight_append, Path.weight_replicate, last, ← Path.size_eq_weight] at size
    omega
  obtain ⟨whole, absolute, respells⟩ := plain.absolute (by rw [names_manySlashes]; simp)
  have vacant : emptyDirectory.files.Vacant whole ["d"] "a" ["d"] := by
    refine ⟨respells.plain, respells.names.trans names_manySlashes, ?_, by decide, ?_, by rfl⟩
    · refine respells.check_iff.mpr ⟨?_, ?_⟩
      · rw [Path.nul_mem_text_iff, names_manySlashes]
        decide
      · have tight := respells.tight
        rw [names_manySlashes] at tight
        exact Nat.lt_of_le_of_lt tight (by decide)
    · exact Node.arrives_location ⟨_, by rfl⟩ (by simp [IsName.mk, Path.isFiller]; decide)
  have created : emptyDirectory.files.createDirectory whole defaultDirectoryMode = .ok _ :=
    (createDirectory_eq_ok_iff respells.plain sound_emptyDirectory.top).mpr
      ⟨_, _, _, vacant, rfl⟩
  have made := run_mkdir_calm rfl (absolute _) created
    (vacant.isDirectory_new sound_emptyDirectory _) ⟨0o750⟩
  obtain ⟨above, chain⟩ := ancestors_manySlashes
  have missing : ¬ emptyDirectory.files.isDirectory manySlashes = true := fun found =>
    tooLong (check_of_isDirectory found)
  have there : emptyDirectory.files.isDirectory ⟨"/d"⟩ = true := by decide +kernel
  have parent : (mkdirEach ⟨0o750⟩ (⟨"/d"⟩ :: above)).run memoryBackend emptyDirectory =
      (.ok (), emptyDirectory) := by
    rw [run_mkdirEach, if_pos there]
  have ran : (mkdirEach ⟨0o750⟩ (manySlashes :: ⟨"/d"⟩ :: above)).run memoryBackend
      emptyDirectory = _ := run_mkdirEach ⟨0o750⟩ manySlashes _
  rw [if_neg missing, parent] at ran
  dsimp only at ran
  rw [made, ← chain] at ran
  have found := claim manySlashes ⟨0o750⟩ emptyDirectory _ plain.straight.filled plain.noUp
    sound_emptyDirectory ran manySlashes (by rw [chain]; exact List.mem_cons_self)
  exact tooLong (check_of_isDirectory found)

end AclFiles

end ModeAcl
