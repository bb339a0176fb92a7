import ModeAcl.Proofs.Deeds
import ModeAcl.Proofs.Growing
import ModeAcl.Proofs.Interleaving

/-!
# Making directories among others

What `mkdirEach` achieves while others create directories as well, over a backend that
answers all that is asked of it (`Backend.Dependable`). The contract is that
nothing but new directories appears (`growth`). Under it, an application of a mode
to a directory succeeds, an attempt to create a directory creates it or finds one
there, and at the end all directories are there, those that were created with
their lists (`Provides`).
-/

namespace ModeAcl

open FileSystem

variable {Acl Descriptor σ α β : Type}

/-! ## Operations that cope -/

namespace Operation

variable {b : Backend Acl Descriptor σ} {contract : Contract b.respond} {w : World σ}

theorem copes_bind {op : Operation Acl Descriptor α} {f : α → Operation Acl Descriptor β}
    {post : List (Exchange Acl Descriptor) → Except Error α → World σ → Prop}
    {next : List (Exchange Acl Descriptor) → Except Error β → World σ → Prop}
    (copes : op.result.Copes contract w post)
    (goesOn : ∀ xs a t, contract.changes w t → post xs (.ok a) t →
      (f a).result.Copes contract t fun ys => next (xs ++ ys))
    (stops : ∀ xs e t, contract.changes w t → post xs (.error e) t →
      ∀ t', contract.changes t t' → next xs (.error e) t') :
    (op >>= f).result.Copes contract w next := by
  have parts : (op >>= f).result = op.result >>= ExceptT.bindCont f := rfl
  rw [parts]
  refine copes.bind fun xs result t changed holds => ?_
  cases result with
  | ok a => exact goesOn xs a t changed holds
  | error e =>
    refine .pure fun t' later => ?_
    rw [List.append_nil]
    exact stops xs e t changed holds t' later

/-- An operation that succeeds, followed by another one. -/
theorem copes_bind_of_ok {op : Operation Acl Descriptor α} {f : α → Operation Acl Descriptor β}
    {a : α} {post : List (Exchange Acl Descriptor) → World σ → Prop}
    {next : List (Exchange Acl Descriptor) → Except Error β → World σ → Prop}
    (copes : op.result.Copes contract w fun xs result t => result = .ok a ∧ post xs t)
    (goesOn : ∀ xs t, contract.changes w t → post xs t →
      (f a).result.Copes contract t fun ys => next (xs ++ ys)) :
    (op >>= f).result.Copes contract w next := by
  refine copes_bind copes (fun xs a' t changed holds => ?_) fun xs e t _ holds => ?_
  · cases holds.1
    exact goesOn xs t changed holds.2
  · cases holds.1

/-- A call to the backend that is always answered in the same way. -/
theorem copes_askAt {stage : String} {c : SecurityCall Acl Descriptor} {a : c.Answer}
    (answered : ∀ w', contract.changes w w' → contract.allows (.security c) w' ∧
      (b.respond (.security c) w').1 = .ok a) :
    (askAt stage c).result.Copes contract w fun xs result _ =>
      result = .ok a ∧ xs = [⟨.security c, .ok a⟩] := by
  refine Procedure.Copes.map (Procedure.Copes.single fun w' changed => ?_)
  obtain ⟨allowed, answer⟩ := answered w' changed
  refine ⟨allowed, fun _ _ => ?_⟩
  rw [answer]
  exact ⟨rfl, rfl⟩

theorem atMost_bind {op : Operation Acl Descriptor α} {f : α → Operation Acl Descriptor β}
    {n k : Nat} (first : op.result.AtMost n) (rest : ∀ a, (f a).result.AtMost k) :
    (op >>= f).result.AtMost (n + k) := by
  have parts : (op >>= f).result = op.result >>= ExceptT.bindCont f := rfl
  rw [parts]
  refine first.bind fun result => ?_
  cases result with
  | ok a => exact rest a
  | error e => exact .done _

end Operation

/-! ## Dependable backends -/

/-- A backend that, as long as it is `calm`, answers all that applying a mode for the current user
asks of it: it knows the identities, it builds lists and it sets them for every object that is there. It
stays calm, and it leaves the files alone. This is more than never to fail: the identities are always
the same, and so is the list that it builds of the same grants, so that one can speak of the list for
a mode. -/
structure Backend.Dependable (b : Backend Acl Descriptor σ) (calm : σ → Prop)
    (sids : FileClass → Sid) (build : List Grant → Acl) : Prop where
  keeps : ∀ c w, calm w.backend → (b.respond (.security c) w).2.files = w.files ∧
    calm (b.respond (.security c) w).2.backend
  user : ∀ w, calm w.backend →
    (b.respond (.security .currentUser) w).1 = .ok (sids .owner)
  group : ∀ w, calm w.backend →
    (b.respond (.security .primaryGroup) w).1 = .ok (sids .group)
  everyone : ∀ w, calm w.backend →
    (b.respond (.security (.wellKnownSid .world)) w).1 = .ok (sids .other)
  builds : ∀ grants w, calm w.backend →
    (b.respond (.security (.buildAcl grants)) w).1 = .ok (build grants)
  sets : ∀ path acl w, calm w.backend → w.files.hasObject path = true →
    (b.respond (.security (.setAcl path acl)) w).1 = .ok ()

/-- A call that changes nothing in the files, but may create a directory at a plain path. -/
def Call.OnlyCreates : Call Acl Descriptor → Prop
  | .file (.createDirectory path) => path.Plain
  | .file (.metadata _) | .file (.absolute _) | .security _ | .log _ => True
  | .file _ => False

/-- Nothing is wrong with the files or the backend. -/
structure World.Sane (calm : σ → Prop) (w : World σ) : Prop where
  calm : calm w.backend
  sound : w.files.Sound

variable {b : Backend Acl Descriptor σ} {calm : σ → Prop} {sids : FileClass → Sid}
  {build : List Grant → Acl} {w w' : World σ} {mode : Mode} {path : Path}

/-- What an allowed call does to the files: nothing, or it has created the directory that it was
asked to create. -/
theorem Call.OnlyCreates.step (dependable : b.Dependable calm sids build)
    {c : Call Acl Descriptor} (allowed : c.OnlyCreates) (sane : w.Sane calm) :
    calm (b.respond c w).2.backend ∧
      ((b.respond c w).2.files = w.files ∧
          (∀ path, (⟨c, (b.respond c w).1⟩ : Exchange Acl Descriptor).deed? ≠
            some (.created path)) ∨
        ∃ path init name inner, w.files.Vacant path init name inner ∧
          (b.respond c w).2.files = w.files.withDirectory inner name defaultDirectoryMode ∧
          (⟨c, (b.respond c w).1⟩ : Exchange Acl Descriptor).deed? = some (.created path)) := by
  rcases c with c | c | line
  · obtain ⟨same, still⟩ := dependable.keeps c w sane.calm
    refine ⟨still, Or.inl ⟨same, fun path => ?_⟩⟩
    rw [Exchange.deed?]
    split
    · cases c <;> simp [Call.deed?]
    · simp
  · cases c with
    | metadata path =>
      rw [Backend.respond]
      simp only [FileSystem.answer]
      rcases w.files.metadata path with e | m <;>
        exact ⟨sane.calm, Or.inl ⟨rfl, fun path => by simp [Exchange.deed?, Call.deed?]⟩⟩
    | absolute path =>
      rw [Backend.respond]
      simp only [FileSystem.answer]
      rcases w.files.absolute path with e | whole <;>
        exact ⟨sane.calm, Or.inl ⟨rfl, fun path => by simp [Exchange.deed?, Call.deed?]⟩⟩
    | createDirectory path =>
      rw [Backend.respond]
      simp only [FileSystem.answer]
      rcases created : w.files.createDirectory path defaultDirectoryMode with e | fs
      · exact ⟨sane.calm, Or.inl ⟨rfl, fun path => by
          simp [Exchange.deed?, Call.Reply.isOk, Except.isOk, Except.toBool, Except.map]⟩⟩
      · obtain ⟨init, name, inner, vacant, rfl⟩ :=
          (createDirectory_eq_ok_iff allowed sane.sound.top).mp created
        exact ⟨sane.calm, Or.inr ⟨path, init, name, inner, vacant, rfl, rfl⟩⟩
    | _ => exact absurd allowed id
  · exact ⟨sane.calm, Or.inl ⟨rfl, fun path => by simp [Exchange.deed?, Call.deed?]⟩⟩

/-- Nothing but new directories appears, and the backend stays calm. -/
def growth (dependable : b.Dependable calm sids build) : Contract b.respond where
  changes w w' := w.files.Grows w'.files ∧ (calm w.backend → calm w'.backend)
  allows c w := c.OnlyCreates ∧ w.Sane calm
  refl w := ⟨.refl _, id⟩
  trans first second := ⟨first.1.trans second.1, fun quiet => second.2 (first.2 quiet)⟩
  step := by
    rintro c w ⟨allowed, sane⟩
    obtain ⟨still, ⟨same, -⟩ | ⟨path, init, name, inner, vacant, new, -⟩⟩ :=
      allowed.step dependable sane
    · exact ⟨same ▸ .refl _, fun _ => still⟩
    · exact ⟨new ▸ .create vacant _, fun _ => still⟩

section

variable {dependable : b.Dependable calm sids build}

theorem World.Sane.grown (sane : w.Sane calm) (changed : (growth dependable).changes w w') :
    w'.Sane calm :=
  ⟨changed.2 sane.calm, changed.1.keeps.sound sane.sound⟩

/-! ## Applying -/

theorem deeds_of_idle {c : Call Acl Descriptor} (idle : c.deed? = none) (reply : c.Reply) :
    deeds [(⟨c, reply⟩ : Exchange Acl Descriptor)] = [] := by
  simp [deeds, Exchange.deed?, idle]

/-- A call to the backend that changes no list. -/
theorem copes_askAt_of_idle (sane : w.Sane calm) (stage : String) {c : SecurityCall Acl Descriptor}
    {a : c.Answer} (idle : (Call.security c).deed? = none)
    (answered : ∀ w, calm w.backend → (b.respond (.security c) w).1 = .ok a) :
    (Operation.askAt stage c).result.Copes (growth dependable) w fun xs result _ =>
      result = .ok a ∧ deeds xs = [] := by
  have copes : (Operation.askAt stage c).result.Copes (growth dependable) w fun xs result _ =>
      result = .ok a ∧ xs = [⟨.security c, .ok a⟩] :=
    Operation.copes_askAt fun w' changed =>
      have still := sane.grown changed
      ⟨⟨trivial, still⟩, answered w' still.calm⟩
  refine copes.mono fun xs result t holds => ?_
  rw [holds.2]
  exact ⟨holds.1, deeds_of_idle idle _⟩

theorem copes_resolve (sane : w.Sane calm) (c : FileClass) :
    (Trustees.currentUser.resolve c).result.Copes (growth dependable) w fun xs result _ =>
      result = .ok (sids c) ∧ deeds xs = [] := by
  cases c with
  | owner => exact copes_askAt_of_idle sane _ rfl dependable.user
  | group => exact copes_askAt_of_idle sane _ rfl dependable.group
  | other => exact copes_askAt_of_idle sane _ rfl dependable.everyone

/-- The trustees of several classes are looked up. -/
theorem copes_grants (sane : w.Sane calm) (masks : TriadMasks) (classes : List FileClass) :
    (classes.mapM (grantFor masks .currentUser)).Copes (growth dependable) w fun xs results _ =>
      results = classes.map (fun c => .ok ⟨sids c, masks.get c⟩) ∧ deeds xs = [] := by
  induction classes generalizing w with
  | nil =>
    rw [List.mapM_nil]
    exact .pure fun _ _ => ⟨rfl, rfl⟩
  | cons c classes ih =>
    have first : (grantFor masks .currentUser c).Copes (growth dependable) w fun xs result _ =>
        result = .ok ⟨sids c, masks.get c⟩ ∧ deeds xs = [] := by
      refine (copes_resolve sane c).bind fun xs result t _ holds => .pure fun _ _ => ?_
      rw [holds.1, List.append_nil, holds.2]
      exact ⟨rfl, rfl⟩
    rw [List.mapM_cons]
    refine first.bind fun xs result t changed resolved => ?_
    refine (ih (sane.grown changed)).bind fun ys results u _ others => .pure fun _ _ => ?_
    rw [resolved.1, others.1, List.append_nil, deeds_append, resolved.2, others.2]
    exact ⟨rfl, rfl⟩

theorem copes_explicitEntries (sane : w.Sane calm) (masks : TriadMasks) :
    (explicitEntries masks .currentUser).result.Copes (growth dependable) w fun xs result _ =>
      result = .ok (masks.grantsTo sids) ∧ deeds xs = [] := by
  change (masks.granted.mapM (grantFor masks .currentUser) >>= _).Copes _ _ _
  refine (copes_grants sane masks masks.granted).bind fun xs results t _ holds => ?_
  rw [holds.1, partResults_map_ok]
  refine .pure fun _ _ => ?_
  rw [List.append_nil]
  exact ⟨rfl, holds.2⟩

/-- The list that a directory gets for a mode. -/
abbrev directoryAcl (build : List Grant → Acl) (sids : FileClass → Sid) (mode : Mode) : Acl :=
  build ((TriadMasks.ofMode mode true).grantsTo sids)

/-- A list is set for a directory that stays. -/
theorem copes_setAcl (sane : w.Sane calm) (straight : path.Straight)
    (there : w.files.isDirectory path = true) (stage : String) (acl : Acl) :
    (Operation.askAt stage (.setAcl path acl)).result.Copes (growth dependable) w
      fun xs result _ => result = .ok () ∧ deeds xs = [.listed path acl] := by
  have copes : (Operation.askAt stage (.setAcl path acl)).result.Copes (growth dependable) w
      fun xs result _ => result = .ok () ∧ xs = [⟨.security (.setAcl path acl), .ok ()⟩] := by
    refine Operation.copes_askAt fun t changed => ?_
    have still := sane.grown changed
    have stays := hasObject_of_isDirectory (changed.1.keeps.isDirectory sane.sound straight there)
    exact ⟨⟨trivial, still⟩, dependable.sets _ _ t still.calm stays⟩
  refine copes.mono fun xs result t holds => ⟨holds.1, ?_⟩
  rw [holds.2]
  rfl

/-- A mode is applied to a directory that stays. -/
theorem copes_applyMode (sane : w.Sane calm) (straight : path.Straight)
    (there : w.files.isDirectory path = true) (mode : Mode) :
    (applyMode path mode true .currentUser).result.Copes (growth dependable) w fun xs result _ =>
      result = .ok () ∧ deeds xs = [.listed path (directoryAcl build sids mode)] := by
  rw [applyMode]
  refine Operation.copes_bind_of_ok (copes_explicitEntries sane _) fun xs t first resolved => ?_
  have sane₁ := sane.grown first
  have there₁ := first.1.keeps.isDirectory sane.sound straight there
  refine Operation.copes_bind_of_ok
    (copes_askAt_of_idle sane₁ _ rfl (dependable.builds _)) fun ys u second built => ?_
  have sane₂ := sane₁.grown second
  have there₂ := second.1.keeps.isDirectory sane₁.sound straight there₁
  refine Operation.copes_bind_of_ok (copes_setAcl sane₂ straight there₂ _ _)
    fun zs v third listed => ?_
  refine Procedure.Copes.map (Procedure.Copes.single fun v' after =>
    ⟨⟨trivial, (sane₂.grown third).grown after⟩, fun _ _ => ⟨rfl, ?_⟩⟩)
  rw [deeds_append, deeds_append, deeds_append, resolved, built, listed]
  rfl

/-! ## One directory -/

namespace AclFiles

/-- A path that is found to be a directory is one; if it is found to be none, it was none before. -/
theorem copes_probeDirectory (sane : w.Sane calm) (straight : path.Straight) :
    (probeDirectory path).Copes (growth dependable) w fun xs found t =>
      deeds xs = [] ∧ if found then t.files.isDirectory path = true
        else w.files.isDirectory path = false := by
  intro w' changed
  refine ⟨⟨trivial, sane.grown changed⟩, ?_⟩
  have missing : w'.files.isDirectory path = false → w.files.isDirectory path = false := by
    intro absent
    by_contra there
    rw [Bool.not_eq_false] at there
    rw [changed.1.keeps.isDirectory sane.sound straight there] at absent
    cases absent
  rw [Backend.respond]
  simp only [FileSystem.answer]
  rcases told : w'.files.metadata path with e | m
  · have found : w'.files.isDirectory path = false := by rw [FileSystem.isDirectory, told]
    exact fun _ _ => ⟨rfl, missing found⟩
  · have found : w'.files.isDirectory path = m.isDirectory := by rw [FileSystem.isDirectory, told]
    intro t later
    refine ⟨rfl, ?_⟩
    split
    · rename_i isDirectory
      exact later.1.keeps.isDirectory (sane.grown changed).sound straight (found.trans isDirectory)
    · rename_i isNone
      exact missing (found.trans (Bool.eq_false_iff.mpr isNone))

theorem copes_absolute {whole : Path} (sane : w.Sane calm)
    (absolute : w.files.absolute path = .ok whole) :
    (Operation.ofProcedure (atStage "computing absolute path" <$>
      onFiles (.absolute path))).result.Copes (growth dependable) w fun xs result _ =>
        result = .ok whole ∧ deeds xs = [] := by
  refine Procedure.Copes.map (Procedure.Copes.single fun w' changed =>
    ⟨⟨trivial, sane.grown changed⟩, fun t _ => ?_⟩)
  have answered : (b.respond (.file (.absolute path)) w').1 = .ok whole := by
    rw [Backend.respond]
    simp only [FileSystem.answer, changed.1.keeps.absolute path, absolute]
    rfl
  rw [answered]
  exact ⟨rfl, deeds_of_idle rfl _⟩

/-- Below a directory, one is created at a passable path or found there. -/
theorem copes_createDirectory {start : Location} {init : List String} {name : String}
    {whole : Path} (sane : w.Sane calm) (straight : path.Straight)
    (passable : w.files.Passable start path) (named : path.names = init ++ [name])
    (above : ∃ inner, w.files.root.Arrives (start ++ init) inner)
    (absolute : w.files.absolute path = .ok whole) :
    (Operation.files (.createDirectory whole)).result.Copes (growth dependable) w
      fun xs result t => t.files.isDirectory path = true ∧
        (result = .ok () ∧ deeds xs = [.created whole] ∧ t.files.isDirectory whole = true ∨
          result = .error (.io (.os .EEXIST)) ∧ deeds xs = []) := by
  obtain ⟨-, -, plain, -⟩ := start?_of_absolute straight sane.sound absolute
  refine Procedure.Copes.map (Procedure.Copes.single fun w' changed =>
    ⟨⟨plain, sane.grown changed⟩, fun t later => ?_⟩)
  have sound := (sane.grown changed).sound
  have same : w'.files.absolute path = .ok whole := (changed.1.keeps.absolute path).trans absolute
  obtain ⟨whole', absolute', -, place⟩ :=
    (passable.grows sane.sound straight changed.1).createDirectory sound straight named
      (above.imp fun _ arrives => arrives.mono changed.1.keeps.faces) defaultDirectoryMode
  rw [same] at absolute'
  cases absolute'
  rw [Backend.respond] at later ⊢
  simp only [FileSystem.answer] at later ⊢
  rcases place with ⟨taken, there⟩ | ⟨inner, vacant, created⟩
  · rw [taken] at later ⊢
    exact ⟨later.1.keeps.isDirectory sound straight there, Or.inr ⟨rfl, rfl⟩⟩
  · rw [created] at later ⊢
    have keeps := vacant.keeps defaultDirectoryMode
    have new := vacant.isDirectory_new sound defaultDirectoryMode
    have own := isDirectory_of_absolute straight (keeps.sound sound)
      ((keeps.absolute path).trans same) new (Path.check_eq_ok_iff.mp passable.checked).2.2
    exact ⟨later.1.keeps.isDirectory (keeps.sound sound) straight own,
      Or.inl ⟨rfl, rfl, later.1.keeps.isDirectory (keeps.sound sound) plain.straight new⟩⟩

theorem copes_applyOrRemove (sane : w.Sane calm) (straight : path.Straight)
    (there : w.files.isDirectory path = true) (mode : Mode)
    (removal : Procedure Acl Descriptor (Except CallError Unit)) :
    (applyOrRemove path mode true .currentUser removal).result.Copes (growth dependable) w
      fun xs result _ => result = .ok () ∧
        deeds xs = [.listed path (directoryAcl build sids mode)] := by
  refine (copes_applyMode sane straight there mode).bind fun xs result t _ holds => ?_
  rw [holds.1]
  refine .pure fun _ _ => ?_
  rw [List.append_nil]
  exact ⟨rfl, holds.2⟩

theorem copes_mkdir {start : Location} {init : List String} {name : String}
    (sane : w.Sane calm) (straight : path.Straight) (passable : w.files.Passable start path)
    (named : path.names = init ++ [name])
    (above : ∃ inner, w.files.root.Arrives (start ++ init) inner) (mode : Mode) :
    (mkdir path mode).result.Copes (growth dependable) w fun xs result t =>
      t.files.isDirectory path = true ∧
        ((∃ whole, t.files.absolute path = .ok whole ∧ result = .ok () ∧
            deeds xs = [.created whole, .listed whole (directoryAcl build sids mode)]) ∨
          result = .error (.io (.os .EEXIST)) ∧ deeds xs = []) := by
  obtain ⟨whole, absolute, -⟩ := passable.absolute
  obtain ⟨-, -, plain, -⟩ := start?_of_absolute straight sane.sound absolute
  rw [mkdir]
  refine Operation.copes_bind_of_ok (copes_absolute sane absolute) fun xs t first none => ?_
  have sane₁ := sane.grown first
  have absolute₁ : t.files.absolute path = .ok whole := (first.1.keeps.absolute path).trans absolute
  refine Operation.copes_bind (copes_createDirectory sane₁ straight
    (passable.grows sane.sound straight first.1) named
    (above.imp fun _ arrives => arrives.mono first.1.keeps.faces) absolute₁)
    (fun ys _ u second holds => ?_) fun ys e u second holds u' later => ?_
  · obtain ⟨own, ⟨-, created, there⟩ | ⟨refused, -⟩⟩ := holds
    · have sane₂ := sane₁.grown second
      refine (copes_applyOrRemove sane₂ plain.straight there mode _).tracked.mono
        fun zs result v holds => ⟨?_, Or.inl ⟨whole, ?_, holds.1.1, ?_⟩⟩
      · exact holds.2.1.keeps.isDirectory sane₂.sound straight own
      · rw [holds.2.1.keeps.absolute, second.1.keeps.absolute, absolute₁]
      · rw [deeds_append, deeds_append, none, created, holds.1.2]
        rfl
    · cases refused
  · obtain ⟨own, ⟨succeeded, -⟩ | ⟨refused, nothing⟩⟩ := holds
    · cases succeeded
    · refine ⟨later.1.keeps.isDirectory (sane₁.grown second).sound straight own, Or.inr ⟨?_, ?_⟩⟩
      · cases refused
        rfl
      · rw [deeds_append, none, nothing]
        rfl

/-! ## All directories -/

/-- All paths are directories, and what has been done is that some of them have been created,
each with its list. -/
structure Provides (acl : Acl) (paths : List Path) (xs : List (Exchange Acl Descriptor))
    (result : Except Error Unit) (w : World σ) : Prop where
  ok : result = .ok ()
  present : ∀ q ∈ paths, w.files.isDirectory q = true
  made : ∃ wholes, deeds xs = making acl wholes ∧
    ∀ whole ∈ wholes, ∃ q ∈ paths, w.files.absolute q = .ok whole

/-- A directory with those above it is found, and nothing is done. -/
theorem Provides.of_isDirectory {acl : Acl} {above : List Path}
    {xs : List (Exchange Acl Descriptor)} (chain : Path.Upward (path :: above))
    (sound : w.files.Sound) (there : w.files.isDirectory path = true) (none : deeds xs = []) :
    Provides acl (path :: above) xs (.ok ()) w := by
  refine ⟨rfl, fun q member => ?_, [], none, by simp⟩
  rcases List.mem_cons.mp member with rfl | higher
  · exact there
  · exact isDirectory_of_upward chain sound there higher

/-- One more directory, behind those above it. -/
theorem copes_mkdirEach_cons {start : Location} {init : List String} {name : String}
    {above : List Path} (chain : Path.Upward (path :: above)) (sane : w.Sane calm)
    (passable : w.files.Passable start path) (named : path.names = init ++ [name])
    (higher : ∀ t, (growth dependable).changes w t →
      (mkdirEach mode above).result.Copes (growth dependable) t fun xs result u =>
        Provides (directoryAcl build sids mode) above xs result u ∧
          ∃ inner, u.files.root.Arrives (start ++ init) inner) :
    (mkdirEach mode (path :: above)).result.Copes (growth dependable) w
      (Provides (directoryAcl build sids mode) (path :: above)) := by
  have straight := chain.straight List.mem_cons_self
  have straight' : ∀ q ∈ above, q.Straight := fun q member =>
    chain.straight (List.mem_cons_of_mem _ member)
  rw [mkdirEach]
  refine (copes_probeDirectory sane straight).bind fun xs found t first holds => ?_
  have sane₁ := sane.grown first
  cases found with
  | true =>
    refine .pure fun t' later => ?_
    rw [List.append_nil]
    exact .of_isDirectory chain (sane₁.grown later).sound
      (later.1.keeps.isDirectory sane₁.sound straight holds.2) holds.1
  | false =>
    refine (higher t first).bind fun ys result u second provided => ?_
    obtain ⟨⟨rfl, present, wholes, made, absolutes⟩, arrives⟩ := provided
    have sane₂ := sane₁.grown second
    have passable₂ := passable.grows sane.sound straight (first.1.trans second.1)
    refine (copes_mkdir sane₂ straight passable₂ named arrives mode).bind
      fun zs result v third outcome => ?_
    obtain ⟨there, ⟨whole, absolute, rfl, new⟩ | ⟨rfl, none⟩⟩ := outcome
    · -- the directory is new
      refine .pure fun v' later => ⟨rfl, fun q member => ?_, wholes ++ [whole], ?_, ?_⟩
      · rcases List.mem_cons.mp member with rfl | high
        · exact later.1.keeps.isDirectory (sane₂.grown third).sound straight there
        · exact (third.1.trans later.1).keeps.isDirectory sane₂.sound (straight' q high)
            (present q high)
      · simp [holds.1, made, new, making]
      · intro other member
        rcases List.mem_append.mp member with old | own
        · obtain ⟨q, high, same⟩ := absolutes other old
          exact ⟨q, List.mem_cons_of_mem _ high,
            ((third.1.trans later.1).keeps.absolute q).trans same⟩
        · rw [List.mem_singleton.mp own]
          exact ⟨path, List.mem_cons_self, (later.1.keeps.absolute path).trans absolute⟩
    · -- someone else was faster
      have sane₃ := sane₂.grown third
      refine (copes_probeDirectory sane₃ straight).bind fun ws found v' fourth probed => ?_
      cases found with
      | false =>
        rw [there] at probed
        cases probed.2
      | true =>
        refine .pure fun v'' later => ⟨rfl, fun q member => ?_, wholes, ?_, ?_⟩
        · rcases List.mem_cons.mp member with rfl | high
          · exact (fourth.1.trans later.1).keeps.isDirectory sane₃.sound straight there
          · exact (third.1.trans (fourth.1.trans later.1)).keeps.isDirectory sane₂.sound
              (straight' q high) (present q high)
        · simp [holds.1, made, none, probed.1]
        · intro other member
          obtain ⟨q, high, same⟩ := absolutes other member
          exact ⟨q, List.mem_cons_of_mem _ high,
            ((third.1.trans (fourth.1.trans later.1)).keeps.absolute q).trans same⟩

theorem copes_mkdirEach_of_isDirectory {above : List Path} {acl : Acl}
    (chain : Path.Upward (path :: above)) (sane : w.Sane calm)
    (there : w.files.isDirectory path = true) :
    (mkdirEach mode (path :: above)).result.Copes (growth dependable) w
      (Provides acl (path :: above)) := by
  have straight := chain.straight List.mem_cons_self
  rw [mkdirEach]
  refine (copes_probeDirectory sane straight).bind fun xs found t first holds => ?_
  cases found with
  | false =>
    rw [there] at holds
    cases holds.2
  | true =>
    refine .pure fun t' later => ?_
    rw [List.append_nil]
    exact .of_isDirectory chain ((sane.grown first).grown later).sound
      ((first.1.trans later.1).keeps.isDirectory sane.sound straight there) holds.1

/-- Among others, all directories are provided if every path is one or passable. -/
theorem copes_mkdirEach {paths : List Path} (chain : Path.Upward paths) (sane : w.Sane calm)
    (ways : ∀ q ∈ paths, w.files.isDirectory q = true ∨ ∃ start, w.files.Passable start q)
    (mode : Mode) :
    (mkdirEach mode paths).result.Copes (growth dependable) w
      (Provides (directoryAcl build sids mode) paths) := by
  induction chain generalizing w with
  | @top p straight short =>
    have chain : Path.Upward [p] := .top straight short
    rcases ways p List.mem_cons_self with there | ⟨start, passable⟩
    · exact copes_mkdirEach_of_isDirectory chain sane there
    have starts := fun (u : World σ) (later : (growth dependable).changes w u) =>
      (sane.grown later).sound.start_arrives ((later.1.keeps.start? p).trans passable.starts)
    rcases List.eq_nil_or_concat p.names with none | ⟨init, name, named⟩
    · refine copes_mkdirEach_of_isDirectory chain sane ?_
      rw [isDirectory_iff_arrives sane.sound passable.starts, none, List.append_nil]
      exact ⟨passable.checked, _, starts w ((growth dependable).refl w)⟩
    · rw [List.concat_eq_append] at named
      refine copes_mkdirEach_cons chain sane passable named fun t changed =>
        .pure fun u later => ⟨⟨rfl, by simp, [], rfl, by simp⟩, ?_⟩
      obtain rfl : init = [] := by
        rw [named, List.length_append, List.length_singleton] at short
        exact List.eq_nil_of_length_eq_zero (by omega)
      rw [List.append_nil]
      exact ⟨_, starts u ((growth dependable).trans changed later)⟩
  | @step p q above name child chain ih =>
    have whole : Path.Upward (p :: q :: above) := .step child chain
    rcases ways p List.mem_cons_self with there | ⟨start, passable⟩
    · exact copes_mkdirEach_of_isDirectory whole sane there
    refine copes_mkdirEach_cons whole sane passable child.named fun t changed => ?_
    have ways' : ∀ r ∈ q :: above, t.files.isDirectory r = true ∨
        ∃ start, t.files.Passable start r := by
      intro r member
      have straight := chain.straight member
      refine (ways r (List.mem_cons_of_mem _ member)).imp
        (changed.1.keeps.isDirectory sane.sound straight) ?_
      rintro ⟨start, passable⟩
      exact ⟨start, passable.grows sane.sound straight changed.1⟩
    refine (ih (sane.grown changed) ways').tracked.mono fun xs result u holds => ⟨holds.1, ?_⟩
    -- the directory above is there, so its names lead to it
    have grows := changed.1.trans holds.2.1
    have from_ : u.files.start? q = some start := by
      rw [grows.keeps.start?, start?, child.alike, ← start?, passable.starts]
    have there := holds.1.present q List.mem_cons_self
    rw [isDirectory_iff_arrives (grows.keeps.sound sane.sound) from_] at there
    exact there.2

end AclFiles

end

end ModeAcl
