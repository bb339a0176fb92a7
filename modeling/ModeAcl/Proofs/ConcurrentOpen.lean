import ModeAcl.Proofs.AgreeingRuns
import ModeAcl.Proofs.Footprint
import ModeAcl.Proofs.Interleaving
import ModeAcl.Proofs.OpenUndone

/-!
# Opening a file among others

Whether a file is new is found out by a probe of its own, before the call that
opens it. If another client creates the file in between, the client that has found
nothing takes the file for its own: it sets the list of the file, and if that
fails, it removes it (`Joint.Raced`). The other client may have succeeded long
before.

There is no other way to get there: over any backend and in any order of turns, a
client that sets a list or removes a file has either created the file when it
opened it, or raced (`created_or_raced`). `Stage` is the invariant of a client:
it goes from its probe to its open, and does no harm if it stops before that or
finds the file.

The path leads to a file, a directory or a socket, if anywhere: trees have no devices
and no pipes, no second names, and modes that keep nobody out.
-/

namespace ModeAcl

open FileSystem

variable {ι Acl Descriptor σ α β : Type}

/-! ## Clients that open a file -/

/-- Nothing is found at a path. -/
def FileSystem.Missing (fs : FileSystem) (path : Path) : Prop :=
  ∃ e, fs.metadata path = .error e ∧ e.kind = .notFound

/-- A call that sets a list or removes a file. -/
def Call.alters : Call Acl Descriptor → Bool
  | .security (.setAcl _ _) | .file (.removeFile _) => true
  | _ => false

/-- The next call of a procedure sets a list or removes a file. -/
def Procedure.alters : Procedure Acl Descriptor α → Bool
  | .done _ => false
  | .call c _ => c.alters

/-- A request to open a file, or to write it anew. -/
inductive Opening
  | openFile (flags : OpenFlags) (mode : Mode)
  | writeFile (bytes : List UInt8) (mode : Mode)

namespace Opening

def flags : Opening → OpenFlags
  | openFile flags _ => flags
  | writeFile _ _ => .createTruncate

/-- What a client does for its request. -/
def procedure (path : Path) : Opening → Procedure Acl Descriptor (Except Error Unit)
  | openFile flags mode =>
    Except.map (fun _ => ()) <$> (AclFiles.openFile path flags mode).result
  | writeFile bytes mode => (AclFiles.writeFile path bytes mode).result

end Opening

/-- A procedure that neither sets lists nor removes files. -/
abbrev Procedure.Harmless (p : Procedure Acl Descriptor α) : Prop :=
  p.Within fun c => c.alters = false

/-- A procedure that opens a path, and does no harm if the path cannot be opened. -/
def Procedure.Opens (path : Path) (flags : OpenFlags) (p : Procedure Acl Descriptor α) : Prop :=
  ∃ next, p = .call (.file (.openFile path flags)) next ∧ ∀ e, (next (.error e)).Harmless

/-- A procedure that looks whether something is found at a path. If nothing is, it goes on to open
the path; else it does no harm. -/
def Procedure.Probes (path : Path) (flags : OpenFlags) (p : Procedure Acl Descriptor α) : Prop :=
  ∃ next, p = .call (.file (.metadata path)) next ∧ (∀ m, (next (.ok m)).Harmless) ∧
    ∀ e, if e.kind = .notFound then (next (.error e)).Opens path flags
      else (next (.error e)).Harmless

theorem Procedure.Opens.bind {path : Path} {flags : OpenFlags} {p : Procedure Acl Descriptor α}
    {f : α → Procedure Acl Descriptor β} (opens : p.Opens path flags)
    (rest : ∀ a, (f a).Harmless) : (p >>= f).Opens path flags := by
  obtain ⟨next, rfl, refused⟩ := opens
  exact ⟨fun reply => next reply >>= f, rfl, fun e => (refused e).bind rest⟩

theorem Procedure.Probes.bind {path : Path} {flags : OpenFlags} {p : Procedure Acl Descriptor α}
    {f : α → Procedure Acl Descriptor β} (probes : p.Probes path flags)
    (rest : ∀ a, (f a).Harmless) : (p >>= f).Probes path flags := by
  obtain ⟨next, rfl, found, missing⟩ := probes
  refine ⟨fun reply => next reply >>= f, rfl, fun m => (found m).bind rest, fun e => ?_⟩
  have outcome := missing e
  split at outcome
  · rw [if_pos ‹_›]
    exact outcome.bind rest
  · rw [if_neg ‹_›]
    exact outcome.bind rest

theorem AclFiles.probes_openFile {flags : OpenFlags} (creates : flags.creates = true) (path : Path)
    (mode : Mode) :
    (openFile path flags mode : Operation Acl Descriptor Handle).result.Probes path flags := by
  have parts : (openFile path flags mode : Operation Acl Descriptor Handle) = _ := if_pos creates
  rw [parts]
  refine ⟨_, rfl, fun m => ?_, fun e => ?_⟩
  · refine .call rfl fun reply => ?_
    cases reply <;> exact .done _
  · split
    · rename_i kind
      change Procedure.Opens path flags (ExceptT.bindCont _
        (if e.kind = .notFound then (.ok false : Except Error Bool) else .error (.io e)))
      rw [if_pos kind]
      exact ⟨_, rfl, fun _ => .done _⟩
    · rename_i kind
      change Procedure.Harmless (ExceptT.bindCont _
        (if e.kind = .notFound then (.ok false : Except Error Bool) else .error (.io e)))
      rw [if_neg kind]
      exact .done _

theorem Opening.probes {o : Opening} (creates : o.flags.creates = true) (path : Path) :
    (o.procedure path : Procedure Acl Descriptor _).Probes path o.flags := by
  cases o with
  | openFile flags mode =>
    rw [Opening.procedure, ← bind_pure_comp]
    exact (AclFiles.probes_openFile creates path mode).bind fun _ => .done _
  | writeFile bytes mode =>
    refine (AclFiles.probes_openFile creates path mode).bind fun result => ?_
    cases result with
    | ok handle =>
      refine .call rfl fun reply => ?_
      cases reply <;> exact .done _
    | error e => exact .done _

/-! ## Taking turns -/

section

variable [DecidableEq ι] {b : Backend Acl Descriptor σ}
  {m : Joint ι Acl Descriptor (World σ) α} {path : Path} {flags : OpenFlags} {i : ι}
  {turns : List ι}

/-- A client is about to look at a path at which nothing is found. -/
def Joint.Misses (m : Joint ι Acl Descriptor (World σ) α) (i : ι) (path : Path) : Prop :=
  (∃ next, m.left i = .call (.file (.metadata path)) next) ∧ m.state.files.Missing path

/-- A client is about to open a path and succeeds. -/
def Joint.Opens (m : Joint ι Acl Descriptor (World σ) α) (i : ι) (path : Path)
    (flags : OpenFlags) : Prop :=
  (∃ next, m.left i = .call (.file (.openFile path flags)) next) ∧
    ∃ handle fs, m.state.files.openFile path flags defaultFileMode = .ok (handle, fs)

/-- A client is about to open a path and creates a file by it. -/
def Joint.Creates (m : Joint ι Acl Descriptor (World σ) α) (i : ι) (path : Path) : Prop :=
  ∃ flags next free name, m.left i = .call (.file (.openFile path flags)) next ∧
    m.state.files.CreatesAt path flags free name

/-- How far a client has come after some turns, with what is left for it to do. Once its open has
succeeded, nothing is said of that any more. -/
inductive Stage (b : Backend Acl Descriptor σ) (m : Joint ι Acl Descriptor (World σ) α)
    (path : Path) (flags : OpenFlags) (i : ι) : List ι → Procedure Acl Descriptor α → Prop
  | begins {turns : List ι} {p : Procedure Acl Descriptor α} : p.Probes path flags →
      Stage b m path flags i turns p
  | missed {first between : List ι} {p : Procedure Acl Descriptor α} : i ∉ between →
      (m.run b.respond first).Misses i path → p.Opens path flags →
      Stage b m path flags i (first ++ i :: between) p
  | opened {first between later : List ι} {p : Procedure Acl Descriptor α} : i ∉ between →
      (m.run b.respond first).Misses i path →
      (m.run b.respond (first ++ i :: between)).Opens i path flags →
      Stage b m path flags i (first ++ i :: between ++ i :: later) p
  | harmless {turns : List ι} {p : Procedure Acl Descriptor α} : p.Harmless →
      Stage b m path flags i turns p

theorem Stage.turn (stage : Stage b m path flags i turns ((m.run b.respond turns).left i))
    (j : ι) :
    Stage b m path flags i (turns ++ [j]) ((m.run b.respond (turns ++ [j])).left i) := by
  rw [Joint.run_concat]
  by_cases same : j = i
  · subst same
    generalize left : (m.run b.respond turns).left j = p at stage
    cases stage with
    | begins probes =>
      obtain ⟨next, rfl, found, missing⟩ := probes
      rw [Joint.left_turn_of_call left, Backend.respond]
      simp only [FileSystem.answer]
      rcases told : (m.run b.respond turns).state.files.metadata path with e | found_
      · have outcome := missing e
        split at outcome
        · exact .missed List.not_mem_nil ⟨⟨next, left⟩, e, told, ‹_›⟩ outcome
        · exact .harmless outcome
      · exact .harmless (found found_)
    | @missed first between _ apart misses opens =>
      obtain ⟨next, rfl, refused⟩ := opens
      rw [Joint.left_turn_of_call left, Backend.respond]
      simp only [FileSystem.answer]
      rcases tried : (m.run b.respond (first ++ j :: between)).state.files.openFile path flags
        defaultFileMode with e | ⟨handle, fs⟩
      · exact .harmless (refused e)
      · exact .opened apart misses ⟨⟨next, left⟩, handle, fs, tried⟩
    | @opened first between later _ apart misses opens =>
      rw [List.append_assoc, List.cons_append]
      exact .opened apart misses opens
    | harmless harmless =>
      cases harmless with
      | done a =>
        rw [Joint.turn_of_done left, left]
        exact .harmless (.done a)
      | call _ rest =>
        rw [Joint.left_turn_of_call left]
        exact .harmless (rest _)
  · rw [Joint.left_turn_of_ne (Ne.symm same)]
    generalize (m.run b.respond turns).left i = p at stage
    cases stage with
    | begins probes => exact .begins probes
    | missed apart misses opens =>
      rw [List.append_assoc, List.cons_append]
      exact .missed (by simp [apart, Ne.symm same]) misses opens
    | opened apart misses opens =>
      rw [List.append_assoc, List.cons_append]
      exact .opened apart misses opens
    | harmless harmless => exact .harmless harmless

theorem Stage.run (probes : (m.left i).Probes path flags) (turns : List ι) :
    Stage b m path flags i turns ((m.run b.respond turns).left i) := by
  induction turns using List.reverseRecOn with
  | nil => exact .begins probes
  | append_singleton turns j ih => exact ih.turn j

/-! ## Races -/

/-- A client found nothing at the path, and before it opened the path, a turn of another one brought
the file there that it then opened. -/
def Joint.Raced (b : Backend Acl Descriptor σ) (m : Joint ι Acl Descriptor (World σ) α)
    (path : Path) (i : ι) (turns : List ι) : Prop :=
  ∃ first between later flags, turns = first ++ i :: between ++ i :: later ∧
    (m.run b.respond first).Misses i path ∧
    (m.run b.respond (first ++ i :: between)).Opens i path flags ∧
    ¬ (m.run b.respond (first ++ i :: between)).state.files.Missing path ∧
    ∃ before j after, between = before ++ j :: after ∧ j ≠ i ∧
      (m.run b.respond (first ++ i :: before)).state.files.Missing path ∧
      ¬ (m.run b.respond (first ++ i :: before ++ [j])).state.files.Missing path

/-- To look at a path changes nothing. -/
theorem Joint.Misses.state_turn (misses : m.Misses i path) :
    (m.turn b.respond i).state.files.Missing path := by
  obtain ⟨⟨next, left⟩, missing⟩ := misses
  have same : (m.turn b.respond i).state = m.state := by
    rw [Joint.turn_of_call left, Backend.respond]
    simp only [FileSystem.answer]
    rcases m.state.files.metadata path with e | found <;> rfl
  rw [same]
  exact missing

omit [DecidableEq ι] in
/-- A file that is opened where nothing is found is created. -/
theorem Joint.Opens.creates (may : flags.creates = true) (opens : m.Opens i path flags)
    (missing : m.state.files.Missing path) : m.Creates i path := by
  obtain ⟨⟨next, left⟩, handle, fs, opened⟩ := opens
  obtain ⟨e, lost, -⟩ := missing
  rcases metadata_of_openFile may opened with ⟨free, name, creates⟩ | ⟨found, there⟩
  · exact ⟨flags, next, free, name, left, creates⟩
  · cases lost.symm.trans there

/-- Clients before they open a path or write it. -/
def openClients (clients : ι → Opening) (path : Path) (w : World σ) :
    Joint ι Acl Descriptor (World σ) (Except Error Unit) :=
  .start (fun i => (clients i).procedure path) w

/-- However the calls of several clients are interleaved that open the same path, and whatever fails:
a client that is about to set a list or to remove a file has created the file itself when it opened
the path, or the file was brought there by another one after the client had found nothing. -/
theorem created_or_raced (b : Backend Acl Descriptor σ) (w : World σ) (clients : ι → Opening)
    (path : Path) (may : (clients i).flags.creates = true)
    (alters : (((openClients clients path w).run b.respond turns).left i).alters = true) :
    (∃ first later, turns = first ++ i :: later ∧
      ((openClients clients path w).run b.respond first).Creates i path) ∨
    (openClients clients path w).Raced b path i turns := by
  have stage := Stage.run (b := b) (m := openClients clients path w)
    ((clients i).probes may path) turns
  generalize ((openClients clients path w).run b.respond turns).left i = p at stage alters
  cases stage with
  | begins probes =>
    obtain ⟨next, rfl, -⟩ := probes
    cases alters
  | missed _ _ opens =>
    obtain ⟨next, rfl, -⟩ := opens
    cases alters
  | @opened first between later _ apart misses opens =>
    by_cases missing : ((openClients clients path w).run b.respond
      (first ++ i :: between)).state.files.Missing path
    · exact Or.inl ⟨first ++ i :: between, later, rfl, opens.creates may missing⟩
    · refine Or.inr ⟨first, between, later, _, rfl, misses, opens, missing, ?_⟩
      rw [Joint.run_append, Joint.run_cons] at missing
      obtain ⟨before, j, after, rfl, lost, brought⟩ :=
        Joint.exists_turn_of_change (P := fun t : World σ => t.files.Missing path)
          misses.state_turn missing
      refine ⟨before, j, after, rfl, ?_, ?_, ?_⟩
      · rintro rfl
        exact apart (by simp)
      · rw [Joint.run_append]
        exact lost
      · rw [List.append_assoc, Joint.run_append]
        exact brought
  | harmless harmless =>
    cases harmless with
    | done a => cases alters
    | call innocent _ => cases innocent.symm.trans alters

end

/-! ## A race of two clients -/

/-- One list can be set, and no more. -/
def oneListWorld : MemoryWorld :=
  { emptyDirectory with
    backend :=
      { MemoryBackend.initial with
        faults :=
          { Faults.none with points := [(.setAcl, ⟨.plain .permissionDenied, 1, false⟩)] } } }

/-- Both clients write the same file. -/
def twoWriters : Bool → Opening
  | false => .writeFile [1] ⟨0o600⟩
  | true => .writeFile [2] ⟨0o644⟩

/-- Both probe, both open, the first client gets done, and the second one fails to set its list. -/
def racingTurns : List Bool :=
  [false, true, false, true] ++ List.replicate 5 false ++ List.replicate 5 true

theorem alters_of_racing :
    (((openClients twoWriters ⟨"/d/f"⟩ oneListWorld).run memoryBackend.respond
      racingTurns).left true).alters = true := by
  decide +kernel

theorem done_of_racing :
    ((openClients twoWriters ⟨"/d/f"⟩ oneListWorld).run memoryBackend.respond
      racingTurns).left false = .done (.ok ()) := by
  rfl

/-- When the second client opens the path, the file is there. -/
theorem not_created_of_racing : ¬ ∃ first later, racingTurns = first ++ true :: later ∧
    ((openClients twoWriters ⟨"/d/f"⟩ oneListWorld).run memoryBackend.respond
      first).Creates true ⟨"/d/f"⟩ := by
  have found : ∀ k < racingTurns.length, racingTurns[k]? = some true →
      (match ((openClients twoWriters ⟨"/d/f"⟩ oneListWorld).run memoryBackend.respond
          (racingTurns.take k)).left true with
        | .call (.file (.openFile _ _)) _ =>
          ((openClients twoWriters ⟨"/d/f"⟩ oneListWorld).run memoryBackend.respond
            (racingTurns.take k)).state.files.hasObject ⟨"/d/f"⟩
        | _ => true) = true := by
    decide +kernel
  rintro ⟨first, later, parts, flags, next, free, name, left, creates⟩
  have taken : racingTurns.take first.length = first := by rw [parts, List.take_left]
  have there := found first.length (by rw [parts]; simp) (by rw [parts]; simp)
  rw [taken, left] at there
  dsimp only at there
  rw [hasObject, metadata_of_createsAt creates] at there
  cases there

/-- The first client is done and has succeeded, and the second one is about to remove the file that
the first one has created. -/
theorem raced_of_two_writers :
    (twoWriters true).flags.creates = true ∧
      ((openClients twoWriters ⟨"/d/f"⟩ oneListWorld).run memoryBackend.respond
        racingTurns).left false = .done (.ok ()) ∧
      (((openClients twoWriters ⟨"/d/f"⟩ oneListWorld).run memoryBackend.respond
        racingTurns).left true).alters = true ∧
      (openClients twoWriters ⟨"/d/f"⟩ oneListWorld).Raced memoryBackend ⟨"/d/f"⟩ true
        racingTurns :=
  ⟨rfl, done_of_racing, alters_of_racing,
    (created_or_raced memoryBackend oneListWorld twoWriters ⟨"/d/f"⟩ rfl
      alters_of_racing).resolve_left not_created_of_racing⟩

/-- A client may set the list of a file or remove it though another one has created it. -/
theorem not_created_of_alters :
    ¬ ∀ (clients : Bool → Opening) (path : Path) (w : MemoryWorld) (turns : List Bool) (i : Bool),
        (∀ j, (clients j).flags.create = true ∧ (clients j).flags.createNew = false) →
        w.files.Missing path →
        (((openClients clients path w).run memoryBackend.respond turns).left i).alters = true →
          ∃ first later, turns = first ++ i :: later ∧
            ((openClients clients path w).run memoryBackend.respond first).Creates i path := by
  intro claimed
  have missing : oneListWorld.files.metadata ⟨"/d/f"⟩ = .error (.os .ENOENT) := by rfl
  exact not_created_of_racing (claimed twoWriters ⟨"/d/f"⟩ oneListWorld racingTurns true
    (by rintro (_ | _) <;> exact ⟨rfl, rfl⟩) ⟨_, missing, rfl⟩ alters_of_racing)

end ModeAcl
