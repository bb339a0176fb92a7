import ModeAcl.FileSystem.Metadata
import ModeAcl.Proofs.PlainPaths

/-!
# The paths above a path

A path is straight if it is not empty and never goes up; unlike a plain path, it
may start at the working directory and have dots. Its `ancestors` form a chain
(`Upward`): each is its parent with one more name. The absolute path of a straight
path is plain, and its names are those of the working directory, or none, and
then those of the path (`Straight.absolute`).
-/

namespace ModeAcl.Path

/-- A path that leads somewhere without going up. -/
structure Straight (p : Path) : Prop where
  filled : p.text ≠ ""
  noUp : ".." ∉ p.pieces

variable {p : Path}

theorem Plain.straight (plain : p.Plain) : p.Straight :=
  ⟨text_ne_empty_of_rooted plain.rooted, plain.noUp⟩

/-! ## The front -/

theorem names_of_pieces {lead body : List String} (parts : p.pieces = lead ++ body)
    (fillers : ∀ piece ∈ lead, isFiller piece = true) :
    p.names = body.filter fun piece => !isFiller piece := by
  have none : lead.filter (fun piece => !isFiller piece) = [] := by
    rw [List.filter_eq_nil_iff]
    intro piece member
    simp [fillers piece member]
  rw [names, parts, List.filter_append, none, List.nil_append]

theorem rooted_iff (filled : p.text ≠ "") :
    p.isAbsolute = true ↔ ∃ body, p.pieces = "" :: body := by
  constructor
  · intro rooted
    obtain ⟨next, rest, parts⟩ := pieces_of_rooted rooted
    exact ⟨next :: rest, parts⟩
  · rintro ⟨body, parts⟩
    cases body with
    | nil =>
      have text := ofFields_pieces p
      rw [parts] at text
      exact absurd (congrArg Path.text text.symm) filled
    | cons next rest => exact rooted_of_pieces parts

/-- A path starts with a slash, with a dot or with a name. -/
inductive Front (p : Path) : List String → List String → Prop
  | slash {body : List String} : body ≠ [] → p.isAbsolute = true → Front p [""] body
  | dot {body : List String} : p.isAbsolute = false → Front p ["."] body
  | name {first : String} {rest : List String} : p.isAbsolute = false → isFiller first = false →
      Front p [] (first :: rest)

theorem Front.fillers {lead body : List String} (front : p.Front lead body) :
    ∀ piece ∈ lead, isFiller piece = true := by
  cases front <;> simp [isFiller]

theorem Front.rooted {lead body : List String} (front : p.Front lead body) (top : lead = [""]) :
    p.isAbsolute = true := by
  cases front with
  | slash _ absolute => exact absolute
  | dot => simp at top
  | name => cases top

theorem Straight.exists_front (straight : p.Straight) :
    ∃ lead body, p.cut = (lead, body) ∧ p.pieces = lead ++ body ∧ p.Front lead body := by
  have rooted := rooted_iff straight.filled
  obtain ⟨first, rest, parts⟩ := List.exists_cons_of_ne_nil p.pieces_ne_nil
  by_cases slash : first = ""
  · subst slash
    have absolute := rooted.mpr ⟨rest, parts⟩
    obtain ⟨next, rest', parts'⟩ := pieces_of_rooted absolute
    refine ⟨[""], next :: rest', ?_, parts', .slash (by simp) absolute⟩
    rw [cut, parts']
    rfl
  have relative : p.isAbsolute = false := by
    rw [Bool.eq_false_iff, Ne, rooted]
    rintro ⟨body, parts'⟩
    rw [parts] at parts'
    exact slash (List.cons.inj parts').1
  by_cases dot : first = "."
  · subst dot
    refine ⟨["."], rest, ?_, parts, .dot relative⟩
    rw [cut, parts]
    rfl
  · refine ⟨[], first :: rest, ?_, parts, .name relative ?_⟩
    · rw [cut, parts]
      split
      · rename_i same
        exact absurd (List.cons.inj same).1 slash
      · rename_i same
        exact absurd (List.cons.inj same).1 dot
      · rfl
    · rw [isFiller, Bool.or_eq_false_iff]
      exact ⟨beq_false_of_ne slash, beq_false_of_ne dot⟩

theorem Straight.proper (straight : p.Straight) {name : String} (member : name ∈ p.names) :
    name ≠ "" ∧ name ≠ "." ∧ name ≠ ".." ∧ Slashless name := by
  rw [names, List.mem_filter] at member
  obtain ⟨piece, solid⟩ := member
  refine ⟨?_, ?_, ?_, slashless_of_mem_pieces piece⟩
  · rintro rfl
    exact absurd solid (by decide)
  · rintro rfl
    exact absurd solid (by decide)
  · rintro rfl
    exact straight.noUp piece

/-- A path with fewer pieces makes sense to the system if the whole path does. -/
theorem check_of_sublist {q : Path} (checked : p.check = .ok ()) (filled : q.text ≠ "")
    (thin : q.pieces.Sublist p.pieces) : q.check = .ok () := by
  rw [check_eq_ok_iff] at checked ⊢
  have size := size_le_of_sublist thin
  refine ⟨fun nul => checked.1 ?_, filled, by omega⟩
  have other : '\x00' ≠ '/' := by decide
  rw [mem_text_iff other] at nul ⊢
  obtain ⟨piece, member, inside⟩ := nul
  exact ⟨piece, thin.subset member, inside⟩

/-- A NUL can only be in a name. -/
theorem nul_mem_text_iff : '\x00' ∈ p.text.toList ↔ ∃ name ∈ p.names, '\x00' ∈ name.toList := by
  rw [mem_text_iff (by decide)]
  constructor
  · rintro ⟨piece, member, inside⟩
    refine ⟨piece, List.mem_filter.mpr ⟨member, ?_⟩, inside⟩
    by_contra filler
    simp only [Bool.not_eq_true', Bool.not_eq_false, isFiller, Bool.or_eq_true, beq_iff_eq]
      at filler
    rcases filler with rfl | rfl <;> revert inside <;> decide
  · rintro ⟨name, member, inside⟩
    exact ⟨name, (List.mem_filter.mp member).1, inside⟩

/-! ## The parent -/

theorem ofPieces_empty : ofPieces [] [] = ⟨""⟩ := rfl

theorem ofPieces_eq_ofFields {lead body : List String} (below : lead ≠ [""] ∨ body ≠ []) :
    ofPieces lead body = ofFields (lead ++ body) := by
  rw [ofPieces, if_neg]
  · rfl
  · rcases below with other | some_ <;> simp_all

/-- The top is above every path that starts with a slash. -/
theorem straight_top : (ofFields ["", ""]).Straight ∧ (ofFields ["", ""]).names = [] ∧
    (ofFields ["", ""]).isAbsolute = true := by
  have slash : (ofFields ["", ""]).pieces = ["", ""] :=
    pieces_ofFields (by simp) (by simp [Slashless])
  refine ⟨⟨by decide, by simp [slash]⟩, ?_, rooted_of_pieces slash⟩
  rw [names, slash]
  rfl

theorem check_top (absolute : p.isAbsolute = true) (checked : p.check = .ok ()) :
    (ofFields ["", ""]).check = .ok () := by
  have slash : (ofFields ["", ""]).pieces = ["", ""] :=
    pieces_ofFields (by simp) (by simp [Slashless])
  have short : (ofFields ["", ""]).text.utf8ByteSize = 1 := by decide
  obtain ⟨next, others, more⟩ := pieces_of_rooted absolute
  have size := size_eq_weight p
  rw [more] at size
  simp only [weight] at size
  exact check_of_thinner checked (rooted_of_pieces slash) (by simp [slash]) (by omega)

section

variable {lead body inside : List String}

/-- What a front keeps of what is behind it does not make an empty text, unless it is nothing. -/
theorem Front.text_ne_empty (front : p.Front lead body) (inner : inside <+: body)
    (below : lead ≠ [""] ∨ inside ≠ [])
    (pieces_ : (ofFields (lead ++ inside)).pieces = lead ++ inside) :
    (ofFields (lead ++ inside)).text ≠ "" := by
  intro empty
  have alone : lead ++ inside = [""] := by
    rw [← pieces_, pieces, empty]
    rfl
  cases front with
  | slash => simp_all
  | dot => simp at alone
  | name _ proper =>
    rw [List.nil_append] at alone
    rw [alone, List.cons_prefix_cons] at inner
    rw [← inner.1] at proper
    exact absurd proper (by decide)

theorem Front.isAbsolute (front : p.Front lead body) (parts : p.pieces = lead ++ body)
    (straight : p.Straight) (inner : inside <+: body) (some_ : lead ++ inside ≠ [])
    (pieces_ : (ofFields (lead ++ inside)).pieces = lead ++ inside)
    (filled : (ofFields (lead ++ inside)).text ≠ "") :
    (ofFields (lead ++ inside)).isAbsolute = p.isAbsolute := by
  rw [Bool.eq_iff_iff, rooted_iff filled, rooted_iff straight.filled, pieces_, parts]
  cases front with
  | slash => simp
  | dot => simp
  | name _ proper =>
    cases inside with
    | nil => exact absurd rfl some_
    | cons piece inside =>
      rw [List.cons_prefix_cons] at inner
      simp [inner.1]

/-- The last name of a path goes for its parent, and the fillers before it. -/
theorem Front.exists_parent (front : p.Front lead body) (split : p.cut = (lead, body))
    (parts : p.pieces = lead ++ body) {init : List String} {name : String}
    (named : p.names = init ++ [name]) :
    ∃ inside, inside <+: body ∧ (inside.filter fun piece => !isFiller piece) = init ∧
      p.parent? = some (ofPieces lead inside) := by
  have names_ : p.names = (body.rdropWhile isFiller).filter fun piece => !isFiller piece := by
    rw [filter_rdropWhile, names_of_pieces parts front.fillers]
  rcases List.eq_nil_or_concat (body.rdropWhile isFiller) with kept | ⟨before, last, kept⟩
  · rw [kept, named] at names_
    simp at names_
  rw [List.concat_eq_append] at kept
  have solid : isFiller last = false := by
    have ends := List.rdropWhile_last_not isFiller body (by rw [kept]; simp)
    simpa [kept] using ends
  refine ⟨before.rdropWhile isFiller, ?_, ?_, parent?_of_concat split kept⟩
  · exact ((List.rdropWhile_prefix isFiller before).trans ⟨[last], kept.symm⟩).trans
      (List.rdropWhile_prefix isFiller body)
  · rw [kept, List.filter_append, ← filter_rdropWhile, named] at names_
    simp only [solid, List.filter_cons, Bool.not_false, if_true, List.filter_nil] at names_
    exact (List.append_inj' names_ rfl).1.symm

end

/-- The parent of a path with names has all of them but the last. Above a single name of a relative
path there is nothing but the empty path. -/
theorem Straight.parent (straight : p.Straight) {init : List String} {name : String}
    (named : p.names = init ++ [name]) :
    p.parent? = some ⟨""⟩ ∧ init = [] ∨
      ∃ q : Path, p.parent? = some q ∧ q.Straight ∧ q.names = init ∧
        q.isAbsolute = p.isAbsolute ∧ (p.check = .ok () → q.check = .ok ()) := by
  obtain ⟨lead, body, split, parts, front⟩ := straight.exists_front
  obtain ⟨inside, inner, rest, above⟩ := front.exists_parent split parts named
  by_cases top : lead = [""] ∧ inside = []
  · have absolute := front.rooted top.1
    obtain ⟨rfl, rfl⟩ := top
    obtain ⟨straight_, names_, rooted⟩ := straight_top
    exact Or.inr ⟨_, above, straight_, names_.trans rest, rooted.trans absolute.symm,
      check_top absolute⟩
  rw [not_and_or] at top
  rw [ofPieces_eq_ofFields top] at above
  rcases Classical.em (lead ++ inside = []) with nothing | something
  · obtain ⟨rfl, rfl⟩ := List.append_eq_nil_iff.mp nothing
    exact Or.inl ⟨above, rest.symm⟩
  have thin : (lead ++ inside).Sublist p.pieces := by
    rw [parts]
    exact inner.sublist.append_left lead
  have pieces_ : (ofFields (lead ++ inside)).pieces = lead ++ inside :=
    pieces_ofFields something fun piece member => slashless_of_mem_pieces (thin.subset member)
  have filled := front.text_ne_empty inner top pieces_
  exact Or.inr ⟨_, above, ⟨filled, fun up => straight.noUp (thin.subset (pieces_ ▸ up))⟩,
    (names_of_pieces pieces_ front.fillers).trans rest,
    front.isAbsolute parts straight inner something pieces_ filled,
    fun checked => check_of_sublist checked filled (by rw [pieces_]; exact thin)⟩

theorem Straight.parent_of_top (straight : p.Straight) (top : p.names = []) :
    p.parent? = none ∨ p.parent? = some ⟨""⟩ := by
  obtain ⟨lead, body, split, parts, front⟩ := straight.exists_front
  rw [names_of_pieces parts front.fillers, List.filter_eq_nil_iff] at top
  have none : dropTrailingFillers body = [] := by
    rw [dropTrailingFillers_eq, List.rdropWhile_eq_nil_iff]
    intro piece member
    simpa using top piece member
  rw [parent?, split]
  simp only [none]
  split
  · exact Or.inr rfl
  · exact Or.inl rfl

/-! ## The chain -/

/-- A straight path is another one with one more name behind it. -/
structure Child (p q : Path) (name : String) : Prop where
  straight : p.Straight
  named : p.names = q.names ++ [name]
  alike : q.isAbsolute = p.isAbsolute
  checks : p.check = .ok () → q.check = .ok ()

/-- Each path of a chain is a child of the next one; the last one of the chain has no parent but
the empty path. -/
inductive Upward : List Path → Prop
  | top {p : Path} : p.Straight → p.names.length ≤ 1 → Upward [p]
  | step {p q : Path} {above : List Path} {name : String} : p.Child q name →
      Upward (q :: above) → Upward (p :: q :: above)

theorem Straight.upward (straight : p.Straight) {n : Nat} (enough : p.names.length ≤ n) :
    Upward (upwards n p) := by
  induction n generalizing p with
  | zero => exact .top straight (by omega)
  | succ n ih =>
    rw [upwards]
    rcases List.eq_nil_or_concat p.names with none | ⟨init, name, named⟩
    · have short : p.names.length ≤ 1 := by rw [none]; exact Nat.zero_le 1
      rcases straight.parent_of_top none with parent | parent <;> rw [parent] <;>
        exact .top straight short
    rw [List.concat_eq_append] at named
    rcases straight.parent named with ⟨parent, rfl⟩ | ⟨q, parent, straight', rfl, same, checks⟩
    · rw [parent]
      exact .top straight (by rw [named]; exact Nat.le_refl 1)
    · rw [parent]
      have filled : ¬ (q.text == "") = true := by simpa using straight'.filled
      dsimp only
      rw [if_neg filled]
      have chain := ih straight' (by rw [named, List.length_append] at enough; simpa using enough)
      obtain ⟨above, head⟩ := upwards_head n q
      rw [head] at chain ⊢
      exact .step ⟨straight, named, same, checks⟩ chain

/-- The paths above a straight path form a chain. -/
theorem Straight.ancestors (straight : p.Straight) : Upward p.ancestors :=
  straight.upward (List.length_filter_le _ _)

theorem ancestors_head (p : Path) : ∃ above, p.ancestors = p :: above := upwards_head _ p

theorem Upward.straight {q : Path} {paths : List Path} (chain : Upward paths)
    (member : q ∈ paths) : q.Straight := by
  induction chain with
  | top straight _ =>
    rw [List.mem_singleton.mp member]
    exact straight
  | step child _ ih =>
    rcases List.mem_cons.mp member with rfl | above
    · exact child.straight
    · exact ih above

/-! ## Absolute paths -/

theorem Straight.body_eq (straight : p.Straight) :
    (p.cut.2.filterMap Component.ofPiece?).map Component.text = p.names := by
  obtain ⟨lead, body, split, parts, front⟩ := straight.exists_front
  have noUp : ".." ∉ body := fun up => straight.noUp (parts ▸ List.mem_append_right _ up)
  rw [split, filterMap_ofPiece? noUp, names_of_pieces parts front.fillers, List.map_map]
  exact List.map_id _

/-- Names behind one slash or two. -/
theorem plain_ofFields {n : Nat} (positive : 0 < n) {names tail : List String}
    (behind : tail = [] ∨ tail = [""]) (some_ : names ++ tail ≠ [])
    (proper : ∀ name ∈ names, name ≠ "" ∧ name ≠ "." ∧ name ≠ ".." ∧ Slashless name) :
    (ofFields (List.replicate n "" ++ (names ++ tail))).Plain ∧
      (ofFields (List.replicate n "" ++ (names ++ tail))).names = names := by
  have cases_ : ∀ piece ∈ List.replicate n "" ++ (names ++ tail), piece = "" ∨ piece ∈ names := by
    intro piece member
    rcases List.mem_append.mp member with lead | rest
    · exact Or.inl (List.eq_of_mem_replicate lead)
    · rcases List.mem_append.mp rest with name | last
      · exact Or.inr name
      · rcases behind with rfl | rfl <;> simp_all
  have pieces_ : (ofFields (List.replicate n "" ++ (names ++ tail))).pieces =
      List.replicate n "" ++ (names ++ tail) := by
    refine pieces_ofFields (by simp_all) fun piece member => ?_
    rcases cases_ piece member with rfl | name
    · simp [Slashless]
    · exact (proper piece name).2.2.2
  refine ⟨⟨?_, fun here => ?_, fun up => ?_⟩, ?_⟩
  · obtain ⟨m, rfl⟩ := Nat.exists_eq_succ_of_ne_zero (Nat.ne_of_gt positive)
    obtain ⟨next, rest, more⟩ := List.exists_cons_of_ne_nil
      (show List.replicate m "" ++ (names ++ tail) ≠ [] by simp_all)
    refine @rooted_of_pieces _ next rest ?_
    rw [pieces_, List.replicate_succ, List.cons_append, more]
  · rcases cases_ "." (pieces_ ▸ here) with empty | name
    · exact absurd empty (by decide)
    · exact (proper "." name).2.1 rfl
  · rcases cases_ ".." (pieces_ ▸ up) with empty | name
    · exact absurd empty (by decide)
    · exact (proper ".." name).2.2.1 rfl
  · have solid : ∀ name ∈ names, ¬ name = "" ∧ ¬ name = "." := fun name member =>
      ⟨(proper name member).1, (proper name member).2.1⟩
    rw [Path.names, pieces_, List.filter_append, List.filter_append]
    rcases behind with rfl | rfl <;> simpa [isFiller] using solid

/-- Names put behind a path that ends in a slash. -/
theorem foldl_push_slashes {names tail : List String} (behind : tail = [] ∨ tail = [""])
    (proper : ∀ name ∈ names, name ≠ "" ∧ Slashless name) (n : Nat) :
    ∃ tail', (tail' = [] ∨ tail' = [""]) ∧ names ++ tail' ≠ [] ∧
      (names ++ tail).foldl push ("/".intercalate (List.replicate n "" ++ [""])) =
        "/".intercalate (List.replicate n "" ++ (names ++ tail')) := by
  by_cases none : names = []
  · subst none
    refine ⟨[""], Or.inr rfl, by simp, ?_⟩
    rcases behind with rfl | rfl
    · rfl
    · exact push_of_slash _ _
  · exact ⟨tail, behind, by simp [none], foldl_push_of_slash none behind proper _⟩

/-- What a straight path is called from the root: its names come behind those of the working
directory, if the path is relative. -/
theorem Straight.absolute (straight : p.Straight) {workingDirectory : Except CallError Path}
    {start : List String}
    (from_ : p.isAbsolute = true ∧ start = [] ∨
      p.isAbsolute = false ∧ workingDirectory = .ok ⟨"/" ++ "/".intercalate start⟩)
    (proper : ∀ name ∈ start, name ≠ "" ∧ name ≠ "." ∧ name ≠ ".." ∧ Slashless name) :
    ∃ whole : Path, p.absolute workingDirectory = .ok whole ∧ whole.Plain ∧
      whole.names = start ++ p.names := by
  have behind : (if p.endsInSlash then [""] else []) = ([] : List String) ∨
      (if p.endsInSlash then [""] else []) = [""] := by
    cases p.endsInSlash <;> simp
  have own : ∀ name ∈ p.names, name ≠ "" ∧ Slashless name := fun name member =>
    ⟨(straight.proper member).1, (straight.proper member).2.2.2⟩
  have rooted : ∀ n, ∃ whole : Path, whole = ⟨(p.names ++ if p.endsInSlash then [""] else []).foldl
      push ("/".intercalate (List.replicate (n + 1) "" ++ [""]))⟩ ∧ whole.Plain ∧
        whole.names = p.names := by
    intro n
    obtain ⟨tail, ends, some_, pushed⟩ := foldl_push_slashes behind own (n + 1)
    obtain ⟨plain, names_⟩ := plain_ofFields (Nat.zero_lt_succ n) ends some_
      fun name member => straight.proper member
    exact ⟨_, congrArg Path.mk pushed.symm, plain, names_⟩
  rw [Path.absolute]
  simp only [straight.filled, straight.body_eq, beq_iff_eq, if_false]
  rcases from_ with ⟨absolute, rfl⟩ | ⟨relative, rfl⟩
  · by_cases two : p.leadingSlashes = 2
    · obtain ⟨whole, same, plain, names_⟩ := rooted 1
      refine ⟨whole, ?_, plain, names_⟩
      rw [if_pos two, same]
      rfl
    · obtain ⟨whole, same, plain, names_⟩ := rooted 0
      refine ⟨whole, ?_, plain, names_⟩
      rw [if_neg two, if_pos absolute, same]
      rfl
  have notTwo : ¬ p.leadingSlashes = 2 := by
    intro two
    rw [isAbsolute, two] at relative
    cases relative
  have notRooted : ¬ p.isAbsolute = true := by
    rw [relative]
    exact Bool.false_ne_true
  rw [if_neg notTwo, if_neg notRooted]
  simp only [Except.map]
  rcases List.eq_nil_or_concat start with rfl | ⟨init, last, rfl⟩
  · obtain ⟨whole, same, plain, names_⟩ := rooted 0
    exact ⟨whole, congrArg Except.ok same.symm, plain, names_⟩
  rw [List.concat_eq_append] at proper ⊢
  have final := proper last (by simp)
  have base : "/" ++ "/".intercalate (init ++ [last]) = "/".intercalate ("" :: init ++ [last]) := by
    cases init <;> simp
  have pushed := foldl_push p.names _ behind own ("" :: init) final.1 final.2.2.2
  obtain ⟨plain, names_⟩ := @plain_ofFields 1 Nat.zero_lt_one (init ++ [last] ++ p.names) _ behind
    (by simp) (by
      intro name member
      rcases List.mem_append.mp member with before | mine
      · exact proper name before
      · exact straight.proper mine)
  refine ⟨_, ?_, plain, names_⟩
  refine congrArg Except.ok (congrArg Path.mk ?_)
  rw [base, pushed]
  simp

end ModeAcl.Path
