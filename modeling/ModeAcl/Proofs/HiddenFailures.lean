import ModeAcl.Proofs.AgreeingRuns
import ModeAcl.Proofs.Deeds

/-!
# Failures that count as success

A directory that cannot be created because something exists there counts as
created if it is found to be a directory: someone else was faster. What is looked
at is the kind of the failure, and this does not tell which call has failed. If
the backend fails in this way while it sets the list of the new directory, and the
directory is still there after the attempt to remove it, the failure is hidden
(`Hides`).

Over any backend this is the only way to lose a list: a call that succeeds has set
one for each directory that it has created, right after creating it (`ListsAll`),
if and only if no failure was hidden from it.

A directory is removed unless something is in it: modes do not keep anybody from
removing, nor from creating.
-/

namespace ModeAcl

variable {Acl Descriptor σ : Type}

/-! ## Lists for all that is created -/

/-- Every directory that was created was given a list at once, and nothing else was done. -/
inductive ListsAll : List (Deed Acl) → Prop
  | nil : ListsAll []
  | cons {path : Path} {acl : Acl} {ds : List (Deed Acl)} :
      ListsAll ds → ListsAll (.created path :: .listed path acl :: ds)

theorem ListsAll.append {ds es : List (Deed Acl)} (first : ListsAll ds) (second : ListsAll es) :
    ListsAll (ds ++ es) := by
  induction first with
  | nil => exact second
  | cons _ ih => exact .cons ih

/-- Where what is done next does not begin with setting a list, none is missing before it. -/
theorem ListsAll.of_append {ds es : List (Deed Acl)} (all : ListsAll (ds ++ es))
    (starts : ∀ path acl, es.head? ≠ some (.listed path acl)) : ListsAll ds ∧ ListsAll es := by
  generalize whole : ds ++ es = both at all
  induction all generalizing ds with
  | nil =>
    obtain ⟨rfl, rfl⟩ := List.append_eq_nil_iff.mp whole
    exact ⟨.nil, .nil⟩
  | @cons path acl rest others ih =>
    match ds with
    | [] =>
      subst whole
      exact ⟨.nil, .cons others⟩
    | [d] =>
      obtain ⟨rfl, rfl⟩ := List.cons.inj whole
      exact absurd rfl (starts path acl)
    | d :: d' :: ds =>
      simp only [List.cons_append, List.cons.injEq] at whole
      obtain ⟨rfl, rfl, whole⟩ := whole
      obtain ⟨before, behind⟩ := ih whole
      exact ⟨.cons before, behind⟩

theorem ListsAll.exists_listed {ds : List (Deed Acl)} (all : ListsAll ds) {path : Path}
    (created : .created path ∈ ds) : ∃ acl, .listed path acl ∈ ds := by
  induction all with
  | nil => cases created
  | @cons other acl ds _ ih =>
    rcases List.mem_cons.mp created with same | behind
    · cases same
      exact ⟨acl, by simp⟩
    rcases List.mem_cons.mp behind with same | behind
    · cases same
    · obtain ⟨acl', listed⟩ := ih behind
      exact ⟨acl', List.mem_cons_of_mem _ (List.mem_cons_of_mem _ listed)⟩

/-! ## The kinds of the backend's failures -/

section

variable {b : Backend Acl Descriptor σ} {w w' : World σ} {P : ErrorKind → Prop}

/-- What the backend fails with is of one of the kinds `P`. -/
def Backend.FailsWith (b : Backend Acl Descriptor σ) (P : ErrorKind → Prop) : Prop :=
  ∀ c w e, (b.respond (.security c) w).1 = .error e → P e.kind

theorem kind_of_askAt {stage : String} {c : SecurityCall Acl Descriptor} {e : Error}
    (fails : b.FailsWith P) (ran : (Operation.askAt stage c).run b w = (.error e, w')) :
    P e.kind := by
  obtain ⟨e', rfl, refused⟩ := Operation.error_of_run_askAt ran
  exact fails c w e' (congrArg Prod.fst refused)

theorem kind_of_resolve {trustees : Trustees} {c : FileClass} {e : Error} (fails : b.FailsWith P)
    (ran : (trustees.resolve c).run b w = (.error e, w')) : P e.kind := by
  cases trustees <;> cases c <;> exact kind_of_askAt fails ran

theorem kinds_of_grants {masks : TriadMasks} {trustees : Trustees} (fails : b.FailsWith P)
    (classes : List FileClass) (w : World σ) :
    ∀ e ∈ (partResults ((classes.mapM (grantFor masks trustees)).run b.respond w).1).2,
      P e.kind := by
  induction classes generalizing w with
  | nil => exact fun e member => by cases member
  | cons c classes ih =>
    rw [List.mapM_cons, Procedure.run_bind, Procedure.run_bind, Procedure.run_pure, grantFor,
      Procedure.run_bind, Operation.result_run]
    rcases resolved : (trustees.resolve c).run b w with ⟨e | sid, mid⟩
    · intro e' member
      rcases List.mem_cons.mp member with rfl | later
      · exact kind_of_resolve fails resolved
      · exact ih mid e' later
    · exact ih mid

/-- Several failures have the kind of the first of them. -/
theorem kind_of_applyMode {path : Path} {mode : Mode} {isDirectory : Bool} {trustees : Trustees}
    {e : Error} (fails : b.FailsWith P)
    (ran : (applyMode path mode isDirectory trustees).run b w = (.error e, w')) : P e.kind := by
  rcases applyMode_error ran with failed | ⟨grants, found, e', -, ⟨refused, rfl⟩ | built⟩
  · have kinds : ∀ e ∈ (partResults (((TriadMasks.ofMode mode isDirectory).granted.mapM
        (grantFor (.ofMode mode isDirectory) trustees)).run b.respond w).1).2, P e.kind :=
      kinds_of_grants fails _ w
    rw [explicitEntries_run] at failed
    rcases parted : partResults (((TriadMasks.ofMode mode isDirectory).granted.mapM
      (grantFor (.ofMode mode isDirectory) trustees)).run b.respond w).1 with ⟨good, bad⟩
    rw [parted] at failed kinds
    cases bad with
    | nil => cases failed
    | cons first bad =>
      cases failed
      exact kinds first List.mem_cons_self
  · exact fails _ _ e' (congrArg Prod.fst refused)
  · obtain ⟨acl, built, -, refused, rfl⟩ := built
    exact fails _ _ e' (congrArg Prod.fst refused)

end

namespace AclFiles

open Operation

variable {b : Backend Acl Descriptor σ} {mode : Mode} {q : Path} {w w' : World σ}

/-! ## One attempt -/

/-- The directory is created, setting its list fails with the kind that stands for someone else
having been faster, and after the attempt to remove the directory there is one. -/
def Hides (b : Backend Acl Descriptor σ) (mode : Mode) (q : Path) (w : World σ) : Prop :=
  ∃ whole fs e, w.files.absolute q = .ok whole ∧
    w.files.createDirectory whole FileSystem.defaultDirectoryMode = .ok fs ∧
    ((applyMode whole mode true .currentUser).run b { w with files := fs }).1 = .error e ∧
    e.kind = .alreadyExists ∧ ((mkdir q mode).run b w).2.files.isDirectory q = true

/-- What has been done when an attempt to create a directory counts as success. -/
inductive Attempt (b : Backend Acl Descriptor σ) (mode : Mode) (q : Path) (w : World σ) :
    List (Deed Acl) → Prop
  | listed {whole : Path} {acl : Acl} : ¬ Hides b mode q w →
      Attempt b mode q w [.created whole, .listed whole acl]
  | faster : ¬ Hides b mode q w → Attempt b mode q w []
  | hidden {whole : Path} {ds : List (Deed Acl)} : Hides b mode q w →
      (∀ path acl, ds.head? ≠ some (.listed path acl)) → Attempt b mode q w (.created whole :: ds)

theorem Attempt.listed_iff {ds : List (Deed Acl)} (attempt : Attempt b mode q w ds) :
    ListsAll ds ↔ ¬ Hides b mode q w := by
  cases attempt with
  | listed shown => exact iff_of_true (.cons .nil) shown
  | faster shown => exact iff_of_true .nil shown
  | hidden hides unlisted =>
    refine iff_of_false ?_ (not_not_intro hides)
    rintro (_ | _)
    exact unlisted _ _ rfl

theorem Attempt.starts {ds : List (Deed Acl)} (attempt : Attempt b mode q w ds) (path : Path)
    (acl : Acl) : ds.head? ≠ some (.listed path acl) := by
  cases attempt <;> simp

theorem hides_iff {whole : Path} {fs : FileSystem} (absolute : w.files.absolute q = .ok whole)
    (created : w.files.createDirectory whole FileSystem.defaultDirectoryMode = .ok fs) :
    Hides b mode q w ↔
      ∃ e, ((applyMode whole mode true .currentUser).run b { w with files := fs }).1 = .error e ∧
        e.kind = .alreadyExists ∧ ((mkdir q mode).run b w).2.files.isDirectory q = true := by
  constructor
  · rintro ⟨whole', fs', e, same, again, rest⟩
    cases absolute.symm.trans same
    cases created.symm.trans again
    exact ⟨e, rest⟩
  · rintro ⟨e, rest⟩
    exact ⟨whole, fs, e, absolute, created, rest⟩

theorem attempt_of_orFound (ran : orFound q ((mkdir q mode).run b w) = (.ok (), w')) :
    Attempt b mode q w ((mkdir q mode).deedsIn b w) := by
  rw [deedsIn_mkdir]
  rcases absolute : w.files.absolute q with e | whole
  · refine .faster ?_
    rintro ⟨whole, fs, e', other, -⟩
    cases absolute.symm.trans other
  dsimp only
  rcases created : w.files.createDirectory whole FileSystem.defaultDirectoryMode with e | fs
  · refine .faster ?_
    rintro ⟨whole', fs, e', same, other, -⟩
    cases absolute.symm.trans same
    cases created.symm.trans other
  dsimp only
  rw [deedsIn_applyOrRemoveDirectory]
  rcases applied : (applyMode whole mode true .currentUser).run b { w with files := fs } with
    ⟨e | _, w₁⟩
  · rw [deedsIn_applyMode_error applied, List.nil_append]
    refine .hidden ((hides_iff absolute created).mpr ⟨e, congrArg Prod.fst applied, ?_⟩) ?_
    · -- the error of the attempt has the kind of the error of setting the list
      rw [run_mkdir, absolute] at ran ⊢
      dsimp only at ran ⊢
      rw [created] at ran ⊢
      dsimp only at ran ⊢
      rw [run_applyOrRemoveDirectory, applied] at ran ⊢
      dsimp only at ran ⊢
      rcases removed : w₁.files.removeDirectory whole with removal | fs' <;>
        · rw [removed, orFound] at ran
          split at ran
          · rename_i faster
            exact faster
          · cases ran
    · intro path acl
      dsimp only
      split <;> simp
  · obtain ⟨grants, acl, found, built, -, -, done⟩ := deedsIn_applyMode_ok applied
    rw [done]
    refine .listed ?_
    rw [hides_iff absolute created, applied]
    rintro ⟨e, ⟨⟩, -⟩

/-! ## One after the other -/

/-- Among paths that are no directories, each above the one before it, a failure is hidden. -/
inductive HidesAmong (b : Backend Acl Descriptor σ) (mode : Mode) (w : World σ) :
    List Path → Prop
  | here {q : Path} {above : List Path} : w.files.isDirectory q = false →
      Hides b mode q ((mkdirEach mode above).run b w).2 → HidesAmong b mode w (q :: above)
  | above {q : Path} {above : List Path} : w.files.isDirectory q = false →
      HidesAmong b mode w above → HidesAmong b mode w (q :: above)

theorem mkdirEach_lists_iff {paths : List Path}
    (ran : (mkdirEach mode paths).run b w = (.ok (), w')) :
    ListsAll ((mkdirEach mode paths).deedsIn b w) ↔ ¬ HidesAmong b mode w paths := by
  induction paths generalizing w' with
  | nil => exact iff_of_true .nil (by rintro ⟨⟩)
  | cons q above ih =>
    rw [run_mkdirEach] at ran
    rw [deedsIn_mkdirEach]
    by_cases found : w.files.isDirectory q = true
    · rw [if_pos found]
      refine iff_of_true .nil ?_
      rintro (⟨missing, -⟩ | ⟨missing, -⟩) <;>
        · rw [found] at missing
          cases missing
    · rw [if_neg found] at ran ⊢
      have missing : w.files.isDirectory q = false := Bool.eq_false_iff.mpr found
      rcases higher : (mkdirEach mode above).run b w with ⟨e | _, w₁⟩
      · rw [higher] at ran
        cases ran
      · rw [higher] at ran
        dsimp only at ran ⊢
        have attempt := attempt_of_orFound ran
        have before := ih higher
        constructor
        · intro all
          obtain ⟨first, last⟩ := all.of_append attempt.starts
          rintro (⟨-, here⟩ | ⟨-, among⟩)
          · rw [higher] at here
            exact attempt.listed_iff.mp last here
          · exact before.mp first among
        · intro shown
          refine (before.mpr fun among => shown (.above missing among)).append
            (attempt.listed_iff.mpr fun hides => shown (.here missing ?_))
          rw [higher]
          exact hides

/-- A call that succeeds has set a list for each directory that it has created, if and only if no
failure was hidden from it. -/
theorem mkdirAll_lists_iff {path : Path}
    (ran : (mkdirAll path mode).run b w = (.ok (), w')) :
    ListsAll ((mkdirAll path mode).deedsIn b w) ↔ ¬ HidesAmong b mode w path.ancestors :=
  mkdirEach_lists_iff ran

/-- A backend that never says that something exists hides nothing, whatever it leaves behind in
the directories. -/
theorem not_hidesAmong (fails : b.FailsWith (· ≠ .alreadyExists)) {paths : List Path} :
    ¬ HidesAmong b mode w paths := by
  intro among
  induction among with
  | here _ hides =>
    obtain ⟨whole, fs, e, -, -, failed, exists_, -⟩ := hides
    exact kind_of_applyMode fails (Prod.ext failed rfl) exists_
  | above _ _ ih => exact ih

theorem mkdirAll_lists {path : Path} (fails : b.FailsWith (· ≠ .alreadyExists))
    (ran : (mkdirAll path mode).run b w = (.ok (), w')) :
    ∀ whole, .created whole ∈ (mkdirAll path mode).deedsIn b w →
      ∃ acl, .listed whole acl ∈ (mkdirAll path mode).deedsIn b w :=
  fun _ created => ((mkdirEach_lists_iff ran).mpr (not_hidesAmong fails)).exists_listed created

/-! ## A backend that leaves a file behind -/

/-- The backend in memory, but when it is to set a list, it writes a file into the directory
instead and says that something exists. -/
def litteringBackend : Backend (List Ace) MemoryDescriptor MemoryBackend where
  answer b fs
    | .setAcl path _ =>
      match MemoryBackend.litter fs path with
      | .ok littered => (.error (.plain .alreadyExists), littered, b)
      | .error e => (.error e, fs, b)
    | c => memoryBackend.answer b fs c

theorem ok_of_littering : ∃ w',
    (mkdirAll ⟨"/d/a"⟩ ⟨0o755⟩).run litteringBackend emptyDirectory = (.ok (), w') ∧
      w'.files.isDirectory ⟨"/d/a"⟩ = true := by
  have ran : ((mkdirAll ⟨"/d/a"⟩ ⟨0o755⟩).run litteringBackend emptyDirectory).1.isOk = true := by
    decide +kernel
  have there : ((mkdirAll ⟨"/d/a"⟩ ⟨0o755⟩).run litteringBackend
      emptyDirectory).2.files.isDirectory ⟨"/d/a"⟩ = true := by
    decide +kernel
  rcases outcome : (mkdirAll ⟨"/d/a"⟩ ⟨0o755⟩).run litteringBackend emptyDirectory with ⟨_ | _, w'⟩
  · rw [outcome] at ran
    cases ran
  · rw [outcome] at there
    exact ⟨w', rfl, there⟩

theorem deeds_of_littering :
    (mkdirAll ⟨"/d/a"⟩ ⟨0o755⟩).deedsIn litteringBackend emptyDirectory = [.created ⟨"/d/a"⟩] := by
  decide +kernel

/-- The call succeeds because a failure is hidden from it. -/
theorem hidesAmong_of_littering : ∃ w',
    (mkdirAll ⟨"/d/a"⟩ ⟨0o755⟩).run litteringBackend emptyDirectory = (.ok (), w') ∧
      HidesAmong litteringBackend ⟨0o755⟩ emptyDirectory (Path.mk "/d/a").ancestors := by
  obtain ⟨w', ran, -⟩ := ok_of_littering
  refine ⟨w', ran, Classical.not_not.mp fun shown => ?_⟩
  have all := (mkdirAll_lists_iff ran).mpr shown
  rw [deeds_of_littering] at all
  cases all

/-- Success does not mean that the new directory, which is still there, has a list. -/
theorem not_listed_of_mkdirAll_ok :
    ¬ ∀ (b : Backend (List Ace) MemoryDescriptor MemoryBackend) (path : Path) (mode : Mode)
        (w w' : MemoryWorld), (mkdirAll path mode).run b w = (.ok (), w') →
        ∀ whole, .created whole ∈ (mkdirAll path mode).deedsIn b w →
          w'.files.isDirectory whole = true →
            ∃ acl, .listed whole acl ∈ (mkdirAll path mode).deedsIn b w := by
  intro claimed
  obtain ⟨w', ran, there⟩ := ok_of_littering
  have listed := claimed _ _ _ _ _ ran ⟨"/d/a"⟩
  rw [deeds_of_littering] at listed
  obtain ⟨acl, member⟩ := listed List.mem_cons_self there
  simp at member

end AclFiles

end ModeAcl
