import ModeAcl.Proofs.MkdirAmongOthers
import ModeAcl.Proofs.MkdirFootprint

/-!
# Making directories at once

Any number of clients make directories, each with those above it, and take turns
in any order. If nothing is in the way of any of them and the backend does not
fail, all of them succeed (`mkdirAll_concurrent`). Who has created what is told by
a `Ledger`: an invariant of all calls says that the objects that are new are the
directories that were created, each by one client. No client is refused a directory
for want of permissions.
-/

namespace ModeAcl

open FileSystem

variable {ι Acl Descriptor σ α β : Type} {b : Backend Acl Descriptor σ} {calm : σ → Prop}
  {sids : FileClass → Sid} {build : List Grant → Acl} {w : World σ}

/-! ## How many turns it takes -/

section

variable (path : Path) (mode : Mode)

theorem atMost_askAt (stage : String) (c : SecurityCall Acl Descriptor) :
    (Operation.askAt stage c).result.AtMost 1 :=
  .map _ (.call (n := 0) fun _ => .done _)

theorem atMost_resolve (trustees : Trustees) (c : FileClass) :
    (trustees.resolve c : Operation Acl Descriptor Sid).result.AtMost 1 := by
  cases trustees <;> cases c <;> exact atMost_askAt _ _

theorem atMost_explicitEntries (masks : TriadMasks) (trustees : Trustees) :
    (explicitEntries masks trustees : Operation Acl Descriptor (List Grant)).result.AtMost 3 := by
  have few : masks.granted.length * 1 + 0 ≤ 3 := by
    rw [Nat.mul_one]
    exact List.length_filter_le _ _
  have each : ∀ c, (grantFor masks trustees c : Procedure Acl Descriptor _).AtMost 1 := fun c =>
    (atMost_resolve trustees c).bind (k := 0) fun _ => .done _
  refine ((Procedure.AtMost.mapM each masks.granted).bind fun results => ?_).mono few
  split <;> exact .done _

theorem atMost_applyMode (isDirectory : Bool) (trustees : Trustees) :
    (applyMode path mode isDirectory trustees : Operation Acl Descriptor Unit).result.AtMost 6 := by
  refine Operation.atMost_bind (k := 3) (atMost_explicitEntries _ _) fun _ => ?_
  refine Operation.atMost_bind (k := 2) (atMost_askAt _ _) fun _ => ?_
  exact Operation.atMost_bind (k := 1) (atMost_askAt _ _) fun _ =>
    .map _ (.call (n := 0) fun _ => .done _)

namespace AclFiles

theorem atMost_probeDirectory :
    (probeDirectory path : Procedure Acl Descriptor Bool).AtMost 1 := by
  refine .call (n := 0) fun reply => ?_
  cases reply <;> exact .done _

theorem atMost_mkdir : (mkdir path mode : Operation Acl Descriptor Unit).result.AtMost 10 := by
  refine Operation.atMost_bind (k := 9) (.map _ (.call (n := 0) fun _ => .done _)) fun whole => ?_
  refine Operation.atMost_bind (k := 8) (.map _ (.call (n := 0) fun _ => .done _)) fun _ => ?_
  refine Procedure.AtMost.bind (k := 2) (atMost_applyMode whole mode true .currentUser)
    fun result => ?_
  cases result with
  | ok _ => exact .done _
  | error e =>
    refine .call (n := 1) fun reply => ?_
    cases reply with
    | ok _ => exact .done _
    | error _ => exact .call (n := 0) fun _ => .done _

theorem atMost_mkdirEach (paths : List Path) :
    (mkdirEach mode paths : Operation Acl Descriptor Unit).result.AtMost (12 * paths.length) := by
  induction paths with
  | nil => exact .done _
  | cons path above ih =>
    rw [List.length_cons, Nat.mul_succ, Nat.add_comm]
    refine Procedure.AtMost.mono (n := 1 + (12 * above.length + (10 + 1))) ?_ (by omega)
    refine (atMost_probeDirectory path).bind fun found => ?_
    cases found with
    | true => exact .done _
    | false =>
      refine ih.bind fun result => ?_
      cases result with
      | error _ => exact .done _
      | ok _ =>
        refine (atMost_mkdir path mode).bind fun result => ?_
        cases result with
        | ok _ => exact .done _
        | error e =>
          dsimp only
          split
          · refine (atMost_probeDirectory path).bind (k := 0) fun found => ?_
            cases found <;> exact .done _
          · exact .done _

end AclFiles

end

/-! ## Who has created what -/

/-- A directory that was created: by whom, under which path, and where it is. -/
structure Creation (ι : Type) where
  client : ι
  path : Path
  loc : Location

/-- The path of a directory that was created. -/
def Deed.created? : Deed Acl → Option Path
  | .created path => some path
  | _ => none

/-- The directories that were created, each with the client that has created it. -/
def createdIn (trace : List (ι × Exchange Acl Descriptor)) : List (ι × Path) :=
  trace.filterMap fun (i, x) => (x.deed?.bind Deed.created?).map (i, ·)

/-- An account of all objects that are new: each of them is a directory that one client has created,
once, and that the path leads to under which it was created. -/
structure Ledger (before after : FileSystem) (trace : List (ι × Exchange Acl Descriptor))
    (news : List (Creation ι)) : Prop where
  created : createdIn trace = news.map fun n => (n.client, n.path)
  distinct : (news.map Creation.loc).Nodup
  fresh : ∀ n ∈ news, before.root.faceAt n.loc = none
  arrives : ∀ n ∈ news, after.root.Arrives n.path.names n.loc
  complete : ∀ loc, after.root.faceAt loc ≠ before.root.faceAt loc → ∃ n ∈ news, n.loc = loc
  keeps : before.Keeps after

theorem createdIn_append (trace : List (ι × Exchange Acl Descriptor)) (i : ι)
    (x : Exchange Acl Descriptor) :
    createdIn (trace ++ [(i, x)]) =
      createdIn trace ++ ((x.deed?.bind Deed.created?).map (i, ·)).toList := by
  rw [createdIn, List.filterMap_append]
  congr 1

theorem created?_eq_some_iff {d : Deed Acl} {path : Path} :
    d.created? = some path ↔ d = .created path := by
  cases d <;> simp [Deed.created?]

namespace Ledger

variable {before after : FileSystem} {trace : List (ι × Exchange Acl Descriptor)}
  {news : List (Creation ι)}

theorem start (fs : FileSystem) :
    Ledger fs fs ([] : List (ι × Exchange Acl Descriptor)) [] where
  created := rfl
  distinct := List.nodup_nil
  fresh := by simp
  arrives := by simp
  complete _ changed := absurd rfl changed
  keeps := .refl fs

/-- A call that creates no directory. -/
theorem idle (ledger : Ledger before after trace news) {i : ι} {x : Exchange Acl Descriptor}
    (none : ∀ path, x.deed? ≠ some (.created path)) :
    Ledger before after (trace ++ [(i, x)]) news := by
  refine { ledger with created := ?_ }
  have nothing : x.deed?.bind Deed.created? = Option.none := by
    rw [Option.bind_eq_none_iff]
    intro d same
    rw [Option.eq_none_iff_forall_ne_some]
    intro path created
    rw [created?_eq_some_iff.mp created] at same
    exact none path same
  rw [createdIn_append, nothing, ledger.created]
  simp

/-- A call that creates a directory is one more entry. -/
theorem create (ledger : Ledger before after trace news) {i : ι} {x : Exchange Acl Descriptor}
    {path : Path} {init : List String} {name : String} {inner : Location} (mode : Mode)
    (vacant : after.Vacant path init name inner) (done : x.deed? = some (.created path)) :
    Ledger before (after.withDirectory inner name mode) (trace ++ [(i, x)])
      (news ++ [⟨i, path, inner ++ [name]⟩]) := by
  have keeps := vacant.keeps mode
  have apart : ∀ n ∈ news, n.loc ≠ inner ++ [name] := by
    intro n member same
    obtain ⟨bits, inside⟩ := (ledger.arrives n member).inside
    rw [same, vacant.free] at inside
    cases inside
  constructor
  · rw [createdIn_append, done, ledger.created, List.map_append]
    rfl
  · rw [List.map_append, List.nodup_append]
    refine ⟨ledger.distinct, by simp, ?_⟩
    simpa using apart
  · intro n member
    rcases List.mem_append.mp member with old | new
    · exact ledger.fresh n old
    · rw [List.mem_singleton.mp new]
      by_contra there
      obtain ⟨f, found⟩ := Option.ne_none_iff_exists'.mp there
      have still := ledger.keeps.faces _ _ found
      rw [vacant.free] at still
      cases still
  · intro n member
    rcases List.mem_append.mp member with old | new
    · exact (ledger.arrives n old).mono keeps.faces
    · rw [List.mem_singleton.mp new]
      exact vacant.arrives_new mode
  · intro loc changed
    by_cases here : loc = inner ++ [name]
    · exact ⟨_, List.mem_append_right _ List.mem_cons_self, here.symm⟩
    · rw [vacant.faceAt, if_neg here] at changed
      obtain ⟨n, member, same⟩ := ledger.complete loc changed
      exact ⟨n, List.mem_append_left _ member, same⟩
  · exact ledger.keeps.trans keeps

/-- Every allowed call leads from one account to the next. -/
theorem step (dependable : b.Dependable calm sids build) {start : FileSystem}
    (ledger : Ledger start w.files trace news) (i : ι) {c : Call Acl Descriptor}
    (allowed : (growth dependable).allows c w) :
    ∃ news, Ledger start (b.respond c w).2.files (trace ++ [(i, ⟨c, (b.respond c w).1⟩)]) news := by
  obtain ⟨-, ⟨same, none⟩ | ⟨path, init, name, inner, vacant, new, done⟩⟩ :=
    allowed.1.step dependable allowed.2
  · rw [same]
    exact ⟨news, ledger.idle none⟩
  · rw [new]
    exact ⟨_, ledger.create _ vacant done⟩

/-- What one client has created is told by its own calls. -/
theorem paths_eq [DecidableEq ι] (ledger : Ledger before after trace news) (i : ι) :
    (deeds (callsBy i trace)).filterMap Deed.created? =
      (news.filter (·.client = i)).map Creation.path := by
  have own : (deeds (callsBy i trace)).filterMap Deed.created? =
      (createdIn trace).filterMap fun made => if made.1 = i then some made.2 else none := by
    simp only [deeds, callsBy, createdIn, List.filterMap_filterMap]
    congr 1
    funext turn
    obtain ⟨j, x⟩ := turn
    by_cases same : j = i
    · rw [if_pos same, Option.bind_some]
      rcases x.deed?.bind Deed.created? with _ | path
      · rfl
      · exact (if_pos same).symm
    · rw [if_neg same, Option.bind_none, Option.bind_none]
      rcases x.deed?.bind Deed.created? with _ | path
      · rfl
      · exact (if_neg same).symm
  rw [own, ledger.created, List.filterMap_map, ← List.filterMap_eq_map, ← List.filterMap_eq_filter,
    List.filterMap_filterMap]
  congr 1
  funext n
  by_cases same : n.client = i <;> simp [same, Option.guard]

end Ledger

theorem created_making (acl : Acl) (wholes : List Path) :
    (making acl wholes).filterMap Deed.created? = wholes := by
  induction wholes with
  | nil => rfl
  | cons whole wholes ih => exact congrArg (whole :: ·) ih

/-! ## All clients -/

namespace AclFiles

/-- Clients that make directories, each with those above it, before their first calls. -/
def mkdirClients (paths : ι → Path) (modes : ι → Mode) (w : World σ) :
    Joint ι Acl Descriptor (World σ) (Except Error Unit) :=
  .start (fun i => (mkdirAll (paths i) (modes i)).result) w

/-- A client that gets enough turns gets done. -/
theorem mkdirClients_done [DecidableEq ι] {paths : ι → Path} {modes : ι → Mode} {turns : List ι}
    {i : ι} (enough : 12 * (paths i).ancestors.length ≤ turns.count i) :
    ∃ result, ((mkdirClients paths modes w).run b.respond turns).left i = .done result :=
  Joint.done_of_run (atMost_mkdirEach (modes i) (paths i).ancestors) enough

/-- A client that is alone ends as it does without taking turns. -/
theorem mkdirClients_alone {path : Path} {mode : Mode} {turns : List Unit}
    (enough : 12 * path.ancestors.length ≤ turns.count ()) :
    ((mkdirClients (fun _ => path) (fun _ => mode) w).run b.respond turns).left () =
      .done ((mkdirAll path mode).run b w).1 := by
  obtain ⟨result, done⟩ : ∃ result, ((mkdirClients (fun _ => path) (fun _ => mode) w).run b.respond
      turns).left () = .done result := mkdirClients_done enough
  have alone : (((mkdirClients (fun _ => path) (fun _ => mode) w).run b.respond
      turns).left ()).run b.respond _ = (mkdirAll path mode).run b w := Joint.run_alone _ turns
  rw [done] at alone ⊢
  exact congrArg (fun outcome => Procedure.done (Prod.fst outcome)) alone

/-- Clients that make directories at the same time, over a backend that does not fail. None of their
paths goes up, and of the paths above and including them, each is a directory, or else the system takes
it and neither a file nor a link to nowhere is there. Then, in whatever order they take turns:
a client that gets enough turns gets done; one that is done has succeeded, and its path and all above
it are directories; what is new are directories, each created by one client; and a client that
is done has done nothing but to set the list for its mode, once, for each directory that it has created. -/
theorem mkdirAll_concurrent [DecidableEq ι] (dependable : b.Dependable calm sids build)
    {paths : ι → Path} (filled : ∀ i, (paths i).text ≠ "") (noUp : ∀ i, ".." ∉ (paths i).pieces)
    (modes : ι → Mode) (sane : w.Sane calm)
    (takes : ∀ i, ∀ q ∈ (paths i).ancestors, w.files.isDirectory q = false → w.files.Takes q)
    (clear : ∀ i, ∀ q ∈ (paths i).ancestors, w.files.isBlocked q = false) (turns : List ι) :
    let m := (mkdirClients paths modes w).run b.respond turns
    (∀ i, 12 * (paths i).ancestors.length ≤ turns.count i →
      ∃ result, m.left i = .done result) ∧
    (∀ i result, m.left i = .done result → result = .ok () ∧
      ∀ q ∈ (paths i).ancestors, m.state.files.isDirectory q = true) ∧
    ∃ news, Ledger w.files m.state.files m.trace news ∧
      ∀ i result, m.left i = .done result →
        deeds (callsBy i m.trace) = making (directoryAcl build sids (modes i))
          ((news.filter (·.client = i)).map Creation.path) ∧
        ∀ n ∈ news, n.client = i → ∃ q ∈ (paths i).ancestors, w.files.absolute q = .ok n.path := by
  intro m
  have chains : ∀ i, Path.Upward (paths i).ancestors := fun i =>
    Path.Straight.ancestors ⟨filled i, noUp i⟩
  have starts : (mkdirClients paths modes w).Coping (growth dependable) fun i =>
      Provides (directoryAcl build sids (modes i)) (paths i).ancestors := fun i =>
    copes_mkdirEach (chains i) sane
      (isDirectory_or_passable (chains i) sane.sound (takes i) (clear i)) (modes i)
  obtain ⟨coping, news, ledger⟩ := starts.run
    (I := fun v trace => ∃ news, Ledger w.files v.files trace news) ⟨[], .start w.files⟩
    (fun v trace i c held allowed => held.elim fun news ledger =>
      ledger.step dependable i allowed) turns
  refine ⟨fun i enough => ?_, fun i result done => ?_, news, ledger, fun i result done => ?_⟩
  · exact mkdirClients_done enough
  · have provided := coping.of_done done
    exact ⟨provided.ok, provided.present⟩
  · obtain ⟨-, -, wholes, made, absolutes⟩ := coping.of_done done
    have own := ledger.paths_eq i
    rw [made, created_making] at own
    refine ⟨by rw [made, own], fun n member client => ?_⟩
    have there : n.path ∈ wholes := by
      rw [own]
      exact List.mem_map_of_mem (List.mem_filter.mpr ⟨member, by simpa using client⟩)
    obtain ⟨q, above, absolute⟩ := absolutes n.path there
    exact ⟨q, above, (ledger.keeps.absolute q).symm.trans absolute⟩

/-- Without faults, the backend in memory does not fail. -/
theorem dependable_memory : memoryBackend.Dependable (fun m => m.faults = .none)
    Trustees.currentUser.memorySid (List.map Grant.toAce) where
  keeps c w quiet := by
    rw [respond_calm quiet]
    rcases w with ⟨files, store, owner, group, faults⟩
    subst quiet
    cases c with
    | setAcl path acl =>
      simp only [MemoryBackend.serve, MemoryBackend.setAcl]
      by_cases there : files.hasObject path = true
      · rw [if_pos there]
        exact ⟨rfl, rfl⟩
      · rw [if_neg there]
        exact ⟨rfl, rfl⟩
    | _ => exact ⟨rfl, rfl⟩
  user w quiet := by
    rw [respond_calm quiet]
    rcases w with ⟨files, store, owner, group, faults⟩
    subst quiet
    rfl
  group w quiet := by
    rw [respond_calm quiet]
    rcases w with ⟨files, store, owner, group, faults⟩
    subst quiet
    rfl
  everyone w quiet := by
    rw [respond_calm quiet]
    rcases w with ⟨files, store, owner, group, faults⟩
    subst quiet
    rfl
  builds grants w quiet := by
    rw [respond_calm quiet]
    rcases w with ⟨files, store, owner, group, faults⟩
    subst quiet
    rfl
  sets path acl w quiet there := by
    rw [respond_calm quiet]
    rcases w with ⟨files, store, owner, group, faults⟩
    subst quiet
    simp only [MemoryBackend.serve, MemoryBackend.setAcl, there]
    rfl

/-- The system takes plain paths that are not too long. -/
theorem takes_of_plain {fs : FileSystem} {p : Path} (plain : p.Plain) (some_ : p.names ≠ [])
    (checked : p.check = .ok ()) (short : ∀ name ∈ p.names, ¬ maxNameLength < name.utf8ByteSize) :
    fs.Takes p := by
  obtain ⟨whole, absolute, respells⟩ := plain.absolute some_
  exact ⟨checked, short, whole, absolute _, respells.checked checked⟩

/-- Two clients make directories that are beside each other in a new one. -/
def twoPaths (i : Bool) : Path := if i then ⟨"/d/a/b"⟩ else ⟨"/d/a/c"⟩

def twoModes (i : Bool) : Mode := if i then ⟨0o750⟩ else ⟨0o700⟩

theorem mkdirAll_concurrent_of_two_clients :
    (∀ i, (twoPaths i).text ≠ "") ∧ (∀ i, ".." ∉ (twoPaths i).pieces) ∧
      emptyDirectory.Sane (fun m => m.faults = .none) ∧
      (∀ i, ∀ q ∈ (twoPaths i).ancestors,
        emptyDirectory.files.isDirectory q = false → emptyDirectory.files.Takes q) ∧
      (∀ i, ∀ q ∈ (twoPaths i).ancestors, emptyDirectory.files.isBlocked q = false) ∧
      ∃ m, m = (mkdirClients twoPaths twoModes emptyDirectory).run memoryBackend.respond
          (List.replicate 48 [true, false]).flatten ∧
        (∀ i, m.left i = .done (.ok ()) ∧ m.state.files.isDirectory (twoPaths i) = true) ∧
        ∃ news, Ledger emptyDirectory.files m.state.files m.trace news := by
  have filled : ∀ i, (twoPaths i).text ≠ "" := by decide
  have noUp : ∀ i, ".." ∉ (twoPaths i).pieces := by decide
  have sane : emptyDirectory.Sane (fun m => m.faults = .none) := ⟨rfl, sound_emptyDirectory⟩
  have missing_ : ∀ i, ∀ q ∈ (twoPaths i).ancestors, emptyDirectory.files.isDirectory q = false →
      q ∈ [⟨"/d/a/b"⟩, ⟨"/d/a/c"⟩, (⟨"/d/a"⟩ : Path)] := by decide +kernel
  have taken : ∀ q ∈ [⟨"/d/a/b"⟩, ⟨"/d/a/c"⟩, (⟨"/d/a"⟩ : Path)],
      emptyDirectory.files.Takes q := by
    simp only [List.forall_mem_cons]
    refine ⟨?_, ?_, ?_, by simp⟩ <;>
      exact takes_of_plain ⟨by decide, by decide, by decide⟩ (by decide)
        (Path.check_eq_ok_iff.mpr (by decide)) (by decide)
  have takes : ∀ i, ∀ q ∈ (twoPaths i).ancestors, emptyDirectory.files.isDirectory q = false →
      emptyDirectory.files.Takes q := fun i q member missing =>
    taken q (missing_ i q member missing)
  have clear : ∀ i, ∀ q ∈ (twoPaths i).ancestors, emptyDirectory.files.isBlocked q = false := by
    decide +kernel
  refine ⟨filled, noUp, sane, takes, clear, _, rfl, ?_⟩
  have enough : ∀ i, 12 * (twoPaths i).ancestors.length ≤
      ((List.replicate 48 [true, false]).flatten).count i := by decide +kernel
  have own : ∀ i, twoPaths i ∈ (twoPaths i).ancestors := by decide +kernel
  obtain ⟨done, succeeded, news, ledger, -⟩ := mkdirAll_concurrent dependable_memory filled noUp
    twoModes sane takes clear (List.replicate 48 [true, false]).flatten
  refine ⟨fun i => ?_, news, ledger⟩
  obtain ⟨result, left⟩ := done i (enough i)
  obtain ⟨rfl, there⟩ := succeeded i result left
  exact ⟨left, there _ (own i)⟩

theorem slashless_replicate (n : Nat) :
    Path.Slashless (String.ofList (List.replicate n 'a')) := by
  rw [Path.Slashless, String.toList_ofList]
  exact fun member => absurd (List.eq_of_mem_replicate member) (by decide)

/-- A name that is too long for the system. -/
def longName : String := String.ofList (List.replicate 256 'a')

/-- A path of this one name. -/
def tooLong : Path := .ofFields [longName]

theorem pieces_tooLong : tooLong.pieces = [longName] :=
  Path.pieces_ofFields (by simp) fun piece member => by
    rw [List.mem_singleton.mp member]
    exact slashless_replicate 256

theorem isName_longName : IsName longName := ⟨by decide +kernel, by decide +kernel⟩

theorem names_tooLong : tooLong.names = [] ++ [longName] := by
  rw [Path.names, pieces_tooLong, List.filter_cons, isName_longName.notFiller]
  rfl

theorem straight_tooLong : tooLong.Straight := by
  refine ⟨fun empty => ?_, ?_⟩
  · have size : tooLong.text.utf8ByteSize = 256 := by decide +kernel
    rw [empty] at size
    cases size
  · rw [pieces_tooLong, List.mem_singleton]
    exact Ne.symm (by simpa using isName_longName.notUp)

theorem ancestors_tooLong : tooLong.ancestors = [tooLong] := by
  have notHere : longName ≠ "." := by
    intro here
    exact absurd isName_longName.notFiller (by rw [here]; decide)
  obtain ⟨lead, body, split, parts, front⟩ := straight_tooLong.exists_front
  rw [pieces_tooLong] at parts
  obtain ⟨rfl, rfl⟩ : lead = [] ∧ body = [] ++ [longName] := by
    cases front with
    | slash some_ _ => exact absurd (List.cons.inj parts).2.symm some_
    | dot _ => exact absurd (List.cons.inj parts).1 notHere
    | name _ _ => exact ⟨rfl, parts.symm⟩
  have kept : ([] ++ [longName]).rdropWhile Path.isFiller = [] ++ [longName] :=
    List.rdropWhile_concat_neg _ _ _ (by rw [isName_longName.notFiller]; decide)
  have parent := Path.parent?_of_concat split kept
  rw [List.rdropWhile_nil, Path.ofPieces_empty] at parent
  rw [Path.ancestors, pieces_tooLong, List.length_singleton, Path.upwards, parent]
  rfl

/-- A client that is alone, with a backend that does not fail and nothing in its way, still fails if
the system does not take the name. -/
theorem not_ok_of_mkdirAll_concurrent :
    ¬ ∀ (path : Path) (mode : Mode) (w : MemoryWorld) (turns : List Unit) (result : _),
      path.text ≠ "" → ".." ∉ path.pieces → w.Sane (fun m => m.faults = .none) →
        (∀ q ∈ path.ancestors, w.files.isBlocked q = false) →
        ((mkdirClients (fun _ => path) (fun _ => mode) w).run memoryBackend.respond turns).left () =
          .done result → result = .ok () := by
  intro claim
  have sound := sound_emptyDirectory
  have long : ¬ ¬ maxNameLength < longName.utf8ByteSize := by decide +kernel
  have from_ : emptyDirectory.files.start? tooLong = some [] := by
    rw [start?]
    split <;> rfl
  obtain ⟨whole, absolute, plain, names_⟩ := absolute_of_start straight_tooLong sound from_
  rw [names_tooLong] at names_
  -- no directory is there, and none can be created
  have missing : emptyDirectory.files.isDirectory tooLong = false := by
    rw [Bool.eq_false_iff, Ne, isDirectory_iff_arrives sound from_, names_tooLong]
    rintro ⟨-, loc, arrives⟩
    obtain ⟨inner, -, short, -⟩ := arrives.parent isName_longName
    exact long short
  have nowhere : ∀ slot, emptyDirectory.files.slot whole ≠ .ok slot := by
    intro slot placed
    obtain ⟨-, short, -⟩ := arrives_of_slot plain names_ sound.top placed
    exact long short
  rcases placed : emptyDirectory.files.slot whole with e | slot
  · have clear : emptyDirectory.files.isBlocked tooLong = false := by
      simp only [isBlocked, missing, absolute, hasEntry, placed]
      rfl
    have refused : emptyDirectory.files.createDirectory whole defaultDirectoryMode = .error e := by
      rw [createDirectory, placed]
    have ran : (mkdirAll tooLong ⟨0o755⟩).run memoryBackend emptyDirectory =
        (.error (.io e), emptyDirectory) := by
      rw [mkdirAll, ancestors_tooLong, run_mkdirEach, missing, if_neg Bool.false_ne_true]
      have above : (mkdirEach ⟨0o755⟩ []).run memoryBackend emptyDirectory =
          (.ok (), emptyDirectory) := rfl
      rw [above]
      dsimp only
      rw [run_mkdir_of_refused absolute refused, orFound, missing, if_neg (by simp)]
    have enough : 12 * tooLong.ancestors.length ≤ (List.replicate 12 ()).count () := by
      rw [ancestors_tooLong]
      decide
    have clears : ∀ q ∈ tooLong.ancestors, emptyDirectory.files.isBlocked q = false := by
      intro q member
      rw [ancestors_tooLong] at member
      rw [List.mem_singleton.mp member]
      exact clear
    have succeeded := claim tooLong ⟨0o755⟩ emptyDirectory _ _ straight_tooLong.filled
      straight_tooLong.noUp ⟨rfl, sound⟩ clears (mkdirClients_alone enough)
    rw [ran] at succeeded
    cases succeeded
  · exact nowhere slot placed

end AclFiles

end ModeAcl
