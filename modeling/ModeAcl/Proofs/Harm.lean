import ModeAcl.Proofs.MkdirFootprint
import ModeAcl.Proofs.Stages

/-!
# Backends that do harm

A call to set the list of an object may do harm to it: it may leave files in it, or
remove it. `Backend.Confined` says of a backend that it does nothing worse to the
tree, and that only a list that is set with success changes the lists it keeps. Whatever
faults it has, the backend in memory is one; so is `mishapping`, where a script
decides of every call to the backend in memory whether and how it fails, and what
harm it does before.

Over a confined backend, an application that fails has changed no list, and nothing of
the tree but what the harm to its object has.
-/

namespace ModeAcl

open FileSystem

variable {Acl Descriptor σ τ : Type}

/-! ## Harm -/

/-- The name of a file. -/
structure FileName where
  text : String
  named : IsName text
  clean : Path.Slashless text

/-- What may happen to an object when its list should be set. -/
inductive Harm
  /-- A file is written into it. -/
  | leaves (name : FileName) (bytes : List UInt8)
  /-- It is removed with all it holds. -/
  | removes

/-- The file system after some harm to the object of a path. What cannot be done is not done. -/
def Harm.to (path : Path) (fs : FileSystem) : Harm → FileSystem
  | leaves name bytes =>
    match fs.openFile (path.join name.text) .createTruncate defaultFileMode with
    | .error _ => fs
    | .ok (handle, opened) =>
      match opened.write handle bytes with
      | .error _ => opened
      | .ok (_, written) => written
  | removes => fs.discard path

/-- The object of a path has come to harm, any number of times. -/
def FileSystem.Harmed (path : Path) (fs fs' : FileSystem) : Prop :=
  ∃ harms : List Harm, fs' = harms.foldl (Harm.to path) fs

namespace FileSystem.Harmed

variable {path : Path} {fs fs' fs'' : FileSystem}

theorem refl (path : Path) (fs : FileSystem) : Harmed path fs fs := ⟨[], rfl⟩

theorem once (harm : Harm) : Harmed path fs (harm.to path fs) := ⟨[harm], rfl⟩

theorem trans (first : Harmed path fs fs') (second : Harmed path fs' fs'') :
    Harmed path fs fs'' := by
  obtain ⟨harms, rfl⟩ := first
  obtain ⟨others, rfl⟩ := second
  exact ⟨harms ++ others, List.foldl_append.symm⟩

/-- What one harm preserves, any harm does. -/
theorem preserves {P : FileSystem → Prop} (step : ∀ fs, P fs → ∀ harm : Harm, P (harm.to path fs))
    (harmed : Harmed path fs fs') (holds : P fs) : P fs' := by
  obtain ⟨harms, rfl⟩ := harmed
  induction harms generalizing fs with
  | nil => exact holds
  | cons harm harms ih => exact ih (step fs holds harm)

end FileSystem.Harmed

/-! ## Confined backends -/

/-- Only a call to set a list touches the tree, and does no more than harm its object. Only such a
call that succeeds changes the lists. -/
structure Backend.Confined (b : Backend Acl Descriptor σ) (lists : σ → τ) : Prop where
  idle : ∀ (c : SecurityCall Acl Descriptor) (w : World σ), ¬ (Call.security c).Sets →
    (b.respond (.security c) w).2.files = w.files ∧
      lists (b.respond (.security c) w).2.backend = lists w.backend
  harm : ∀ (path : Path) (acl : Acl) (w : World σ),
    Harmed path w.files (b.respond (.security (.setAcl path acl)) w).2.files
  refused : ∀ (path : Path) (acl : Acl) (w w' : World σ) (e : CallError),
    b.respond (.security (.setAcl path acl)) w = (.error e, w') →
      lists w'.backend = lists w.backend

/-- A file without contents is what the backend in memory leaves. -/
theorem harmed_of_litter {path : Path} {fs littered : FileSystem}
    (left : MemoryBackend.litter fs path = .ok littered) : Harmed path fs littered := by
  have clean : Path.Slashless "litter" := by simp [Path.Slashless]
  refine ⟨[.leaves ⟨"litter", ⟨by decide, by decide⟩, clean⟩ []], ?_⟩
  rw [MemoryBackend.litter] at left
  rw [List.foldl_cons, List.foldl_nil, Harm.to]
  rcases opening : fs.openFile (path.join "litter") .createTruncate defaultFileMode with
    e | ⟨handle, opened⟩ <;> rw [opening] at left <;> cases left
  rfl

theorem memoryBackend_confined : memoryBackend.Confined MemoryBackend.store where
  idle c w other := ⟨files_of_not_sets other, store_of_not_sets other⟩
  harm path aces w := by
    have done := files_of_setAcl (w := w) path aces
    rcases answer : memoryBackend.respond (.security (.setAcl path aces)) w with ⟨e | _, w'⟩ <;>
      rw [answer] at done
    · rcases done with same | gone | ⟨-, left⟩
      · exact same ▸ .refl path w.files
      · exact gone ▸ .once .removes
      · exact harmed_of_litter left
    · exact done ▸ .refl path w.files
  refused path aces w w' e answer := by
    have kept := store_of_setAcl (w := w) path aces
    rw [answer] at kept
    exact kept

/-! ## Scripts -/

/-- What goes wrong with a call: harm is done, if it should set a list, and then the call fails, if
there is an error. -/
structure Mishap where
  harms : List Harm
  error? : Option CallError

/-- The file system after the harm of a mishap. -/
def Mishap.files (mishap : Mishap) (fs : FileSystem) : MemoryCall → FileSystem
  | .setAcl path _ => mishap.harms.foldl (Harm.to path) fs
  | _ => fs

/-- The backend in memory with a script that decides of every call what goes wrong with it. -/
def mishapping (script : τ → FileSystem → MemoryCall → Mishap × τ) :
    Backend (List Ace) MemoryDescriptor (MemoryBackend × τ) where
  answer s fs c :=
    let (mishap, next) := script s.2 fs c
    match mishap.error? with
    | some e => (.error e, mishap.files fs c, s.1, next)
    | none =>
      let (reply, served, backend) := s.1.answer (mishap.files fs c) c
      (reply, served, backend, next)

theorem respond_mishapping (script : τ → FileSystem → MemoryCall → Mishap × τ) (c : MemoryCall)
    (w : World (MemoryBackend × τ)) :
    ∃ (mishap : Mishap) (next : τ),
      (∃ e, (mishapping script).respond (.security c) w =
        (.error e, ⟨mishap.files w.files c, w.backend.1, next⟩)) ∨
      (mishapping script).respond (.security c) w =
        let served := memoryBackend.respond (.security c) ⟨mishap.files w.files c, w.backend.1⟩
        (served.1, ⟨served.2.files, served.2.backend, next⟩) := by
  refine ⟨(script w.backend.2 w.files c).1, (script w.backend.2 w.files c).2, ?_⟩
  simp only [Backend.respond, mishapping, memoryBackend]
  rcases (script w.backend.2 w.files c).1.error? with _ | e
  · exact Or.inr rfl
  · exact Or.inl ⟨e, rfl⟩

/-- Whatever a script says, the backend is confined. -/
theorem mishapping_confined (script : τ → FileSystem → MemoryCall → Mishap × τ) :
    (mishapping script).Confined fun s => s.1.store where
  idle c w other := by
    obtain ⟨mishap, next, answer⟩ := respond_mishapping script c w
    have same : mishap.files w.files c = w.files := by
      cases c with
      | setAcl path aces => exact absurd trivial other
      | _ => rfl
    rw [same] at answer
    rcases answer with ⟨e, answer⟩ | answer <;> rw [answer]
    · exact ⟨rfl, rfl⟩
    · exact memoryBackend_confined.idle c ⟨w.files, w.backend.1⟩ other
  harm path aces w := by
    obtain ⟨mishap, next, ⟨e, answer⟩ | answer⟩ :=
      respond_mishapping script (.setAcl path aces) w <;> rw [answer]
    · exact ⟨mishap.harms, rfl⟩
    · exact .trans ⟨mishap.harms, rfl⟩ (memoryBackend_confined.harm path aces _)
  refused path aces w w' e refused := by
    obtain ⟨mishap, next, ⟨e', answer⟩ | answer⟩ :=
      respond_mishapping script (.setAcl path aces) w <;> rw [answer] at refused
    · cases refused
      rfl
    · obtain ⟨reply, after⟩ := Prod.mk.inj refused
      rw [← after]
      exact memoryBackend_confined.refused path aces _ _ e (Prod.ext reply rfl)

/-! ## Applications that fail -/

section

variable {b : Backend Acl Descriptor σ} {lists : σ → τ} {w w' : World σ} {path : Path}
  {mode : Mode} {isDirectory : Bool} {trustees : Trustees}

/-- Looking up the trustees leaves the tree and the lists. -/
theorem Backend.Confined.explicitEntries (confined : b.Confined lists) (masks : TriadMasks)
    (trustees : Trustees) (w : World σ) :
    ((explicitEntries masks trustees).run b w).2.files = w.files ∧
      lists ((explicitEntries masks trustees).run b w).2.backend = lists w.backend := by
  refine (explicitEntries_within masks trustees).preserves
    (R := fun w w' : World σ => w'.files = w.files ∧ lists w'.backend = lists w.backend)
    (fun _ => ⟨rfl, rfl⟩)
    (fun first second => ⟨second.1.trans first.1, second.2.trans first.2⟩) ?_ w
  intro c resolves w
  cases c with
  | security c =>
    refine confined.idle c w fun sets => ?_
    cases c <;> first | exact sets | exact resolves
  | file c => cases resolves
  | log line => exact ⟨rfl, rfl⟩

/-- Building a list leaves the tree and the lists as well. -/
theorem Backend.Confined.buildAcl (confined : b.Confined lists) {masks : TriadMasks}
    {grants : List Grant} {found built : World σ} {entries : Except Error (List Grant)}
    {reply : Except CallError Acl}
    (resolved : (ModeAcl.explicitEntries masks trustees).run b w = (entries, found))
    (answer : b.respond (.security (.buildAcl grants)) found = (reply, built)) :
    built.files = w.files ∧ lists built.backend = lists w.backend := by
  have resolving := confined.explicitEntries masks trustees w
  have building := confined.idle (.buildAcl grants) found id
  rw [resolved] at resolving
  rw [answer] at building
  exact ⟨building.1.trans resolving.1, building.2.trans resolving.2⟩

/-- An application that fails has changed no list, and has done no more than harm to its object. -/
theorem Backend.Confined.applyMode_error (confined : b.Confined lists) {e : Error}
    (ran : (applyMode path mode isDirectory trustees).run b w = (.error e, w')) :
    Harmed path w.files w'.files ∧ lists w'.backend = lists w.backend := by
  rcases ModeAcl.applyMode_error ran with failed | ⟨grants, found, e', entries, stopped⟩
  · have resolving := confined.explicitEntries (.ofMode mode isDirectory) trustees w
    rw [failed] at resolving
    exact ⟨resolving.1 ▸ .refl path _, resolving.2⟩
  rcases stopped with ⟨refused, -⟩ | ⟨acl, built, building, refused, -⟩
  · obtain ⟨files, kept⟩ := confined.buildAcl entries refused
    exact ⟨files ▸ .refl path _, kept⟩
  · obtain ⟨files, kept⟩ := confined.buildAcl entries building
    have harm := confined.harm path acl built
    rw [refused, files] at harm
    exact ⟨harm, (confined.refused path acl built w' e' refused).trans kept⟩

/-- An application never reports a removal, since it has created nothing. -/
theorem applyMode_ne_cleanup {cause : Error} {text : String} {removal : CallError} :
    (applyMode path mode isDirectory trustees).run b w ≠ (.error (.cleanup cause text removal), w')
    := by
  intro ran
  have application := application_of_run (b := b) path mode isDirectory trustees w
  rw [ran] at application
  generalize (applyMode path mode isDirectory trustees).exchangesIn b w = xs at application
  cases application

end

end ModeAcl
