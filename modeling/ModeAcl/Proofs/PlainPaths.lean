import Mathlib.Data.List.DropRight
import Mathlib.Tactic.Common
import ModeAcl.FileSystem.Walk

/-!
# Plain paths

A path is plain if it starts at the root and has no dots among its pieces. Apart
from empty pieces it is then a list of names, and so are its parent and the
absolute path: `parent?` drops the last name, `absolute` keeps all of them, and
neither makes the text longer.
-/

namespace ModeAcl

/-! ## Pieces -/

namespace Fields

theorem join_eq_intercalate (sep : Char) (fields : List (List Char)) :
    join sep fields = [sep].intercalate fields := by
  induction fields with
  | nil => rfl
  | cons field fields ih =>
    cases fields with
    | nil => simp [join]
    | cons next fields => simp [join, ih]

end Fields

namespace Path

/-- The text of some pieces. -/
def ofFields (pieces : List String) : Path := ⟨"/".intercalate pieces⟩

/-- A piece that a path can have. -/
def Slashless (piece : String) : Prop := '/' ∉ piece.toList

theorem slashless_of_mem_pieces {p : Path} {piece : String} (member : piece ∈ p.pieces) :
    Slashless piece := by
  rw [pieces, List.mem_map] at member
  obtain ⟨field, member, rfl⟩ := member
  rw [Slashless, String.toList_ofList]
  exact Fields.not_mem_of_mem_split member

theorem pieces_ne_nil (p : Path) : p.pieces ≠ [] := by
  rw [pieces, Ne, List.map_eq_nil_iff]
  exact Fields.split_ne_nil _ _

theorem pieces_ofFields {ps : List String} (some_ : ps ≠ []) (clean : ∀ p ∈ ps, Slashless p) :
    (ofFields ps).pieces = ps := by
  induction ps with
  | nil => exact absurd rfl some_
  | cons piece ps ih =>
    have first : '/' ∉ piece.toList := clean piece List.mem_cons_self
    cases ps with
    | nil => simp [ofFields, pieces, Fields.split_of_not_mem first]
    | cons next ps =>
      have rest := ih (by simp) fun p member => clean p (List.mem_cons_of_mem _ member)
      have text : (ofFields (piece :: next :: ps)).text.toList =
          piece.toList ++ '/' :: (ofFields (next :: ps)).text.toList := by
        simp [ofFields]
      rw [pieces, text, Fields.split_append first, List.map_cons, String.ofList_toList]
      exact congrArg (piece :: ·) rest

theorem ofFields_pieces (p : Path) : ofFields p.pieces = p := by
  have whole := Fields.join_split '/' p.text.toList
  rw [Fields.join_eq_intercalate] at whole
  apply congrArg Path.mk
  rw [← String.toList_inj, pieces, String.toList_intercalate, List.map_map]
  simpa [Function.comp_def] using whole

/-- How long the text of some pieces is, each with a slash behind it. -/
def weight : List String → Nat
  | [] => 0
  | piece :: pieces => piece.utf8ByteSize + 1 + weight pieces

theorem size_ofFields {ps : List String} (some_ : ps ≠ []) :
    (ofFields ps).text.utf8ByteSize + 1 = weight ps := by
  induction ps with
  | nil => exact absurd rfl some_
  | cons piece ps ih =>
    cases ps with
    | nil => simp [ofFields, weight]
    | cons next ps =>
      have rest : ("/".intercalate (next :: ps)).utf8ByteSize + 1 = weight (next :: ps) :=
        ih (by simp)
      have slash : "/".utf8ByteSize = 1 := by decide
      rw [weight, ← rest, ofFields, String.intercalate_cons_cons, String.utf8ByteSize_append,
        String.utf8ByteSize_append, slash]
      omega

theorem size_eq_weight (p : Path) : p.text.utf8ByteSize + 1 = weight p.pieces := by
  rw [← size_ofFields p.pieces_ne_nil, ofFields_pieces]

theorem weight_le_of_sublist {ps qs : List String} (thin : ps.Sublist qs) :
    weight ps ≤ weight qs := by
  induction thin with
  | slnil => exact Nat.le_refl _
  | cons piece _ ih =>
    exact Nat.le_trans ih (Nat.le_add_left ..)
  | cons_cons piece _ ih => exact Nat.add_le_add_left ih _

/-- Fewer pieces make a shorter text. -/
theorem size_le_of_sublist {p q : Path} (thin : p.pieces.Sublist q.pieces) :
    p.text.utf8ByteSize ≤ q.text.utf8ByteSize := by
  have less := weight_le_of_sublist thin
  have here := size_eq_weight p
  have there := size_eq_weight q
  omega

/-- A character other than the slash is in the text exactly if it is in a piece. -/
theorem mem_text_iff {p : Path} {c : Char} (other : c ≠ '/') :
    c ∈ p.text.toList ↔ ∃ piece ∈ p.pieces, c ∈ piece.toList := by
  have text : ∀ ps : List String, c ∈ ("/".intercalate ps).toList ↔
      ∃ piece ∈ ps, c ∈ piece.toList := by
    intro ps
    induction ps with
    | nil => simp
    | cons piece ps ih =>
      cases ps with
      | nil => simp
      | cons next ps =>
        rw [String.intercalate_cons_cons, String.toList_append, String.toList_append,
          List.mem_append, List.mem_append, ih]
        simp [other]
  rw [← text p.pieces]
  exact iff_of_eq (congrArg (fun q : Path => c ∈ q.text.toList) (ofFields_pieces p).symm)

/-! ## Names -/

/-- The pieces that are names, or two dots. -/
def names (p : Path) : List String := p.pieces.filter fun piece => !isFiller piece

/-- A path from the root without dots. -/
structure Plain (p : Path) : Prop where
  rooted : p.isAbsolute = true
  noHere : "." ∉ p.pieces
  noUp : ".." ∉ p.pieces

theorem pieces_of_rooted {p : Path} (rooted : p.isAbsolute = true) :
    ∃ next rest, p.pieces = "" :: next :: rest := by
  rw [isAbsolute, leadingSlashes] at rooted
  rcases text : p.text.toList with _ | ⟨c, cs⟩
  · rw [text] at rooted
    cases rooted
  · have slash : c = '/' := by
      by_contra other
      rw [text, List.takeWhile_cons_of_neg (by simpa using other)] at rooted
      cases rooted
    rcases parts : Fields.split '/' cs with _ | ⟨field, fields⟩
    · exact absurd parts (Fields.split_ne_nil _ _)
    refine ⟨String.ofList field, fields.map String.ofList, ?_⟩
    rw [pieces, text, slash, Fields.split, if_pos rfl, parts]
    rfl

theorem rooted_of_pieces {p : Path} {next : String} {rest : List String}
    (parts : p.pieces = "" :: next :: rest) : p.isAbsolute = true := by
  have text := ofFields_pieces p
  rw [parts, ofFields, String.intercalate_cons_cons] at text
  rw [← text, isAbsolute, leadingSlashes]
  simp

theorem filterMap_ofPiece? {ps : List String} (noUp : ".." ∉ ps) :
    ps.filterMap Component.ofPiece? =
      (ps.filter fun piece => !isFiller piece).map Component.name := by
  induction ps with
  | nil => rfl
  | cons piece ps ih =>
    rw [List.mem_cons, not_or] at noUp
    by_cases filler : isFiller piece
    · simp [Component.ofPiece?, filler, ih noUp.2]
    · simp [Component.ofPiece?, filler, ih noUp.2, Ne.symm noUp.1]

/-- The key of a plain path is the list of its names. -/
theorem Plain.key_eq {p : Path} (plain : p.Plain) :
    p.key = .root :: p.names.map Component.name := by
  obtain ⟨next, rest, parts⟩ := pieces_of_rooted plain.rooted
  have noUp := plain.noUp
  rw [parts, List.mem_cons, not_or] at noUp
  have names_ : p.names = (next :: rest).filter fun piece => !isFiller piece := by
    rw [names, parts]
    exact List.filter_cons_of_neg (by decide)
  rw [key, Path.components, cut, parts, names_, ← filterMap_ofPiece? noUp.2]
  rfl

theorem check_eq_ok_iff {p : Path} :
    p.check = .ok () ↔ '\x00' ∉ p.text.toList ∧ p.text ≠ "" ∧ p.text.utf8ByteSize < maxPathLength := by
  simp only [check, List.contains_eq_mem, decide_eq_true_eq, beq_iff_eq]
  by_cases nul : '\x00' ∈ p.text.toList
  · simp [nul]
  by_cases empty : p.text = ""
  · simp [empty]
  by_cases long : maxPathLength ≤ p.text.utf8ByteSize
  · simp [nul, empty, long, Nat.not_lt.mpr long]
  · simp [nul, empty, long, Nat.not_le.mp long]

theorem text_ne_empty_of_rooted {p : Path} (rooted : p.isAbsolute = true) : p.text ≠ "" := by
  intro empty
  rw [isAbsolute, leadingSlashes, empty] at rooted
  exact absurd rooted (by decide)

/-- What makes no sense to the system in a path makes none in the path without some pieces. -/
theorem check_of_thinner {p q : Path} (checked : p.check = .ok ()) (rooted : q.isAbsolute = true)
    (parts : ∀ piece ∈ q.pieces, piece ∈ p.pieces ∨ piece = "")
    (size : q.text.utf8ByteSize ≤ p.text.utf8ByteSize) : q.check = .ok () := by
  rw [check_eq_ok_iff] at checked ⊢
  refine ⟨fun nul => checked.1 ?_, text_ne_empty_of_rooted rooted, by omega⟩
  have other : '\x00' ≠ '/' := by decide
  rw [mem_text_iff other] at nul ⊢
  obtain ⟨piece, member, inside⟩ := nul
  rcases parts piece member with there | rfl
  · exact ⟨piece, there, inside⟩
  · simp at inside

/-- Leaving out pieces of a plain path leaves a plain one, as long as it starts at the root. -/
theorem Plain.thinner {p q : Path} (plain : p.Plain) (rooted : q.isAbsolute = true)
    (thin : q.pieces.Sublist p.pieces) : q.Plain ∧ (p.check = .ok () → q.check = .ok ()) :=
  ⟨⟨rooted, fun here => plain.noHere (thin.subset here), fun up => plain.noUp (thin.subset up)⟩,
    fun checked => check_of_thinner checked rooted (fun _ member => Or.inl (thin.subset member))
      (size_le_of_sublist thin)⟩

/-! ## Parents -/

theorem dropTrailingFillers_eq (body : List String) :
    dropTrailingFillers body = body.rdropWhile isFiller := rfl

theorem filter_rdropWhile (body : List String) :
    (body.rdropWhile isFiller).filter (fun piece => !isFiller piece) =
      body.filter fun piece => !isFiller piece := by
  induction body using List.reverseRecOn with
  | nil => rfl
  | append_singleton body piece ih =>
    by_cases filler : isFiller piece = true
    · rw [List.rdropWhile_concat_pos _ _ _ filler, ih, List.filter_append]
      simp [filler]
    · rw [List.rdropWhile_concat_neg _ _ _ filler]

theorem parent?_of_concat {p : Path} {lead body init : List String} {last : String}
    (split : p.cut = (lead, body)) (kept : body.rdropWhile isFiller = init ++ [last]) :
    p.parent? = some (ofPieces lead (init.rdropWhile isFiller)) := by
  rw [parent?, split]
  simp only [dropTrailingFillers_eq, kept]
  rcases whole : init ++ [last] with _ | ⟨first, rest⟩
  · simp at whole
  · simp only [← whole, List.dropLast_concat]

theorem ofPieces_eq (body : List String) :
    ofPieces [""] body = ofFields (if body = [] then ["", ""] else "" :: body) := by
  cases body <;> rfl

/-- Some pieces of a plain path behind its first slash. -/
theorem Plain.ofPieces {p : Path} (plain : p.Plain) {body : List String}
    (inside : ("" :: body).Sublist p.pieces) :
    (ofPieces [""] body).Plain ∧
      (Path.ofPieces [""] body).names = body.filter (fun piece => !isFiller piece) ∧
      (p.check = .ok () → (Path.ofPieces [""] body).check = .ok ()) := by
  rw [ofPieces_eq]
  by_cases top : body = []
  · rw [if_pos top, top]
    have parts : (ofFields ["", ""]).pieces = ["", ""] :=
      pieces_ofFields (by simp) (by simp [Slashless])
    have rooted := rooted_of_pieces parts
    refine ⟨⟨rooted, by simp [parts], by simp [parts]⟩, by simp [names, parts, isFiller], ?_⟩
    intro checked
    refine check_of_thinner checked rooted (by simp [parts]) ?_
    obtain ⟨next, rest, parts'⟩ := pieces_of_rooted plain.rooted
    have size := size_eq_weight p
    have short : (ofFields ["", ""]).text.utf8ByteSize = 1 := by decide
    rw [parts'] at size
    simp only [weight] at size
    omega
  · rw [if_neg top]
    have parts : (ofFields ("" :: body)).pieces = "" :: body :=
      pieces_ofFields (by simp) fun piece member => slashless_of_mem_pieces (inside.subset member)
    obtain ⟨first, others, more⟩ := List.exists_cons_of_ne_nil top
    have rooted := rooted_of_pieces (parts.trans (congrArg ("" :: ·) more))
    obtain ⟨plain', checks⟩ := plain.thinner rooted (by rw [parts]; exact inside)
    refine ⟨plain', ?_, checks⟩
    rw [names, parts]
    exact List.filter_cons_of_neg (by decide)

/-- The parent of a plain path has all of its names but the last. -/
theorem Plain.parent {p : Path} (plain : p.Plain) (some_ : p.names ≠ []) :
    ∃ q, p.parent? = some q ∧ q.Plain ∧ q.names = p.names.dropLast ∧
      (p.check = .ok () → q.check = .ok ()) := by
  obtain ⟨next, rest, parts⟩ := pieces_of_rooted plain.rooted
  have split : p.cut = ([""], next :: rest) := by
    rw [cut, parts]
    rfl
  have names_ : p.names = ((next :: rest).rdropWhile isFiller).filter fun piece =>
      !isFiller piece := by
    rw [filter_rdropWhile, names, parts]
    exact List.filter_cons_of_neg (by decide)
  rcases List.eq_nil_or_concat ((next :: rest).rdropWhile isFiller) with kept | ⟨init, last, kept⟩
  · rw [kept] at names_
    exact absurd names_ some_
  rw [List.concat_eq_append] at kept
  have solid : isFiller last = false := by
    have ends := List.rdropWhile_last_not isFiller (next :: rest) (by rw [kept]; simp)
    simpa [kept] using ends
  rw [kept, List.filter_append, ← filter_rdropWhile] at names_
  simp only [solid, List.filter_cons, Bool.not_false, if_true, List.filter_nil] at names_
  refine ⟨_, parent?_of_concat split kept, ?_⟩
  rw [names_, List.dropLast_concat]
  apply plain.ofPieces
  have first := (List.rdropWhile_prefix isFiller init).sublist
  have second := (List.rdropWhile_prefix isFiller (next :: rest)).sublist
  rw [kept] at second
  rw [parts]
  exact (first.trans ((List.sublist_append_left init [last]).trans second)).cons_cons ""

/-! ## The paths above -/

theorem upwards_head (n : Nat) (p : Path) : ∃ above, upwards n p = p :: above := by
  cases n with
  | zero => exact ⟨[], rfl⟩
  | succ n =>
    rw [upwards]
    rcases p.parent? with _ | q
    · exact ⟨[], rfl⟩
    · dsimp only
      split
      · exact ⟨[], rfl⟩
      · exact ⟨_, rfl⟩

/-- Above a path with names is its parent. -/
theorem Plain.upwards_succ {p : Path} (plain : p.Plain) {init : List String} {name : String}
    (named : p.names = init ++ [name]) :
    ∃ q : Path, q.Plain ∧ q.names = init ∧ (p.check = .ok () → q.check = .ok ()) ∧
      ∀ n, (p.names.length ≤ n + 1 → q.names.length ≤ n) ∧
        upwards (n + 1) p = p :: upwards n q := by
  obtain ⟨q, parent, plain', names, checks⟩ := plain.parent (by simp [named])
  refine ⟨q, plain', ?_, checks, fun n => ⟨fun enough => ?_, ?_⟩⟩
  · rw [names, named, List.dropLast_concat]
  · rw [names, List.length_dropLast]
    omega
  · have filled : ¬ (q.text == "") = true := by
      simpa using text_ne_empty_of_rooted plain'.rooted
    rw [upwards, parent]
    exact if_neg filled

/-! ## Absolute paths -/

theorem getLast?_ofFields {ps : List String} {last : String} (solid : last ≠ "") :
    ("/".intercalate (ps ++ [last])).toList.getLast? = last.toList.getLast? := by
  have filled : last.toList ≠ [] := by simpa using solid
  by_cases none : ps = []
  · simp [none]
  · rw [String.intercalate_append_of_ne_nil none (by simp), String.intercalate_singleton,
      String.toList_append, List.getLast?_append_of_ne_nil _ filled]

/-- A piece put behind a slash. -/
theorem push_of_slash (ps : List String) (piece : String) :
    push ("/".intercalate (ps ++ [""])) piece = "/".intercalate (ps ++ [piece]) := by
  by_cases none : ps = []
  · simp [none, push]
  · have slash : ("/".intercalate (ps ++ [""])).toList.getLast? = some '/' := by
      rw [String.intercalate_append_of_ne_nil none (by simp)]
      simp
    rw [push, slash]
    simp only [beq_self_eq_true, if_true]
    rw [String.intercalate_append_of_ne_nil none (by simp),
      String.intercalate_append_of_ne_nil none (by simp), String.intercalate_singleton,
      String.intercalate_singleton, String.append_empty]

/-- A piece put behind a name. -/
theorem push_of_name (ps : List String) {last : String} (solid : last ≠ "")
    (clean : Slashless last) (piece : String) :
    push ("/".intercalate (ps ++ [last])) piece = "/".intercalate ((ps ++ [last]) ++ [piece]) := by
  have ends := @getLast?_ofFields ps last solid
  rw [push, ends]
  rcases final : last.toList.getLast? with _ | c
  · simp [solid] at final
  have other : (c == '/') = false := by
    refine beq_false_of_ne ?_
    rintro rfl
    exact clean (List.mem_of_getLast? final)
  rw [String.intercalate_append_of_ne_nil (l := ps ++ [last]) (by simp) (by simp)]
  simp [other]

theorem foldl_push (names tail : List String) (behind : tail = [] ∨ tail = [""])
    (proper : ∀ name ∈ names, name ≠ "" ∧ Slashless name) :
    ∀ (ps : List String) {last : String}, last ≠ "" → Slashless last →
      (names ++ tail).foldl push ("/".intercalate (ps ++ [last])) =
        "/".intercalate (ps ++ last :: (names ++ tail)) := by
  induction names with
  | nil =>
    intro ps last solid clean
    rcases behind with rfl | rfl
    · rfl
    · exact (push_of_name ps solid clean "").trans (by simp)
  | cons name names ih =>
    intro ps last solid clean
    obtain ⟨solid', clean'⟩ := proper name List.mem_cons_self
    rw [List.cons_append, List.foldl_cons, push_of_name ps solid clean,
      ih (fun n member => proper n (List.mem_cons_of_mem _ member)) (ps ++ [last]) solid' clean']
    simp

theorem split_replicate_append (sep : Char) (n : Nat) (text : List Char) :
    Fields.split sep (List.replicate n sep ++ text) =
      List.replicate n [] ++ Fields.split sep text := by
  induction n with
  | zero => rfl
  | succ n ih => rw [List.replicate_succ, List.cons_append, Fields.split, if_pos rfl, ih]; rfl

theorem split_concat (sep : Char) (text : List Char) :
    Fields.split sep (text ++ [sep]) = Fields.split sep text ++ [[]] := by
  induction text with
  | nil => simp [Fields.split]
  | cons c cs ih =>
    rw [List.cons_append, Fields.split, Fields.split, ih]
    rcases parts : Fields.split sep cs with _ | ⟨field, fields⟩
    · exact absurd parts (Fields.split_ne_nil sep cs)
    · split <;> rfl

/-- The pieces of a path behind the slashes that it begins with. -/
theorem pieces_eq_replicate (p : Path) :
    ∃ ps, ps ≠ [] ∧ p.pieces = List.replicate p.leadingSlashes "" ++ ps := by
  have slashes : p.text.toList.takeWhile (· == '/') = List.replicate p.leadingSlashes '/' :=
    List.eq_replicate_of_mem fun c member => by
      simpa using List.all_eq_true.mp List.all_takeWhile c member
  have text := List.takeWhile_append_dropWhile (p := (· == '/')) (l := p.text.toList)
  rw [slashes] at text
  refine ⟨(Fields.split '/' (p.text.toList.dropWhile (· == '/'))).map String.ofList, ?_, ?_⟩
  · rw [Ne, List.map_eq_nil_iff]
    exact Fields.split_ne_nil _ _
  · rw [pieces, ← text, split_replicate_append, List.map_append, List.map_replicate, text]

theorem getLast_pieces {p : Path} (ends : p.endsInSlash = true) :
    ∃ init, p.pieces = init ++ [""] := by
  rw [endsInSlash, beq_iff_eq] at ends
  obtain ⟨init, text⟩ := List.getLast?_eq_some_iff.mp ends
  refine ⟨(Fields.split '/' init).map String.ofList, ?_⟩
  rw [pieces, text, split_concat, List.map_append]
  rfl

/-- The slashes at the beginning that an absolute path keeps, and the one at the end. -/
theorem absolute_pieces_sublist {p : Path} {lead tail : List String}
    (leading : ∃ n, n ≤ p.leadingSlashes ∧ lead = List.replicate n "")
    (behind : tail = [] ∨ p.endsInSlash = true ∧ tail = [""]) :
    (lead ++ (p.names ++ tail)).Sublist p.pieces := by
  obtain ⟨n, few, rfl⟩ := leading
  obtain ⟨ps, some_, parts⟩ := pieces_eq_replicate p
  have fewer : (List.replicate n "").Sublist (List.replicate p.leadingSlashes "") :=
    (List.replicate_sublist_replicate "").mpr few
  have names_ : p.names = ps.filter fun piece => !isFiller piece := by
    rw [names, parts, List.filter_append]
    simp [isFiller]
  rw [parts, names_]
  refine fewer.append ?_
  rcases behind with rfl | ⟨ends, rfl⟩
  · rw [List.append_nil]
    exact List.filter_sublist
  · obtain ⟨init, last⟩ := getLast_pieces ends
    rw [parts] at last
    cases ps using List.reverseRecOn with
    | nil => exact absurd rfl some_
    | append_singleton ps piece =>
      rw [← List.append_assoc] at last
      obtain ⟨-, same⟩ := List.append_inj' last rfl
      cases same
      rw [List.filter_append]
      simp [isFiller]

theorem Plain.proper {p : Path} (plain : p.Plain) {name : String} (member : name ∈ p.names) :
    name ≠ "" ∧ name ≠ "." ∧ name ≠ ".." ∧ Slashless name := by
  rw [names, List.mem_filter] at member
  obtain ⟨piece, solid⟩ := member
  refine ⟨?_, ?_, ?_, slashless_of_mem_pieces piece⟩
  · rintro rfl
    exact absurd solid (by decide)
  · rintro rfl
    exact absurd solid (by decide)
  · rintro rfl
    exact plain.noUp piece

theorem foldl_push_of_slash {names tail : List String} (some_ : names ≠ [])
    (behind : tail = [] ∨ tail = [""]) (proper : ∀ name ∈ names, name ≠ "" ∧ Slashless name)
    (ps : List String) :
    (names ++ tail).foldl push ("/".intercalate (ps ++ [""])) =
      "/".intercalate (ps ++ (names ++ tail)) := by
  obtain ⟨name, names, rfl⟩ := List.exists_cons_of_ne_nil some_
  obtain ⟨solid, clean⟩ := proper name List.mem_cons_self
  rw [List.cons_append, List.foldl_cons, push_of_slash]
  exact foldl_push names tail behind (fun n member => proper n (List.mem_cons_of_mem _ member)) ps
    solid clean

/-- A plain path with the same names that is not longer, and has few slashes besides. -/
structure Respells (whole p : Path) : Prop where
  plain : whole.Plain
  names : whole.names = p.names
  shorter : whole.text.utf8ByteSize ≤ p.text.utf8ByteSize
  tight : whole.text.utf8ByteSize ≤ weight p.names + 2
  nul : '\x00' ∈ whole.text.toList ↔ '\x00' ∈ p.text.toList

theorem Respells.check_iff {whole p : Path} (respells : whole.Respells p) :
    whole.check = .ok () ↔
      '\x00' ∉ p.text.toList ∧ whole.text.utf8ByteSize < maxPathLength := by
  rw [check_eq_ok_iff, respells.nul]
  exact ⟨fun ⟨nul, _, short⟩ => ⟨nul, short⟩,
    fun ⟨nul, short⟩ => ⟨nul, text_ne_empty_of_rooted respells.plain.rooted, short⟩⟩

theorem Respells.checked {whole p : Path} (respells : whole.Respells p)
    (checked : p.check = .ok ()) : whole.check = .ok () := by
  obtain ⟨nul, -, short⟩ := check_eq_ok_iff.mp checked
  exact respells.check_iff.mpr ⟨nul, Nat.lt_of_le_of_lt respells.shorter short⟩

theorem weight_append (ps qs : List String) : weight (ps ++ qs) = weight ps + weight qs := by
  induction ps with
  | nil => simp [weight]
  | cons piece ps ih => rw [List.cons_append, weight, ih, weight, Nat.add_assoc _ (weight ps)]

theorem weight_replicate (n : Nat) : weight (List.replicate n "") = n := by
  induction n with
  | zero => rfl
  | succ n ih =>
    rw [List.replicate_succ, weight, ih, String.utf8ByteSize_empty, Nat.zero_add, Nat.add_comm]

/-- The names of a plain path behind one or two slashes, with a slash at the end if there was
one. -/
theorem Plain.respells {p : Path} (plain : p.Plain) (some_ : p.names ≠ []) {n : Nat}
    (positive : 0 < n) (little : n ≤ 2) (few : n ≤ p.leadingSlashes) {tail : List String}
    (behind : tail = [] ∨ p.endsInSlash = true ∧ tail = [""]) :
    (ofFields (List.replicate n "" ++ (p.names ++ tail))).Respells p := by
  have thin := absolute_pieces_sublist ⟨n, few, rfl⟩ behind
  have parts : (ofFields (List.replicate n "" ++ (p.names ++ tail))).pieces =
      List.replicate n "" ++ (p.names ++ tail) :=
    pieces_ofFields (by simp [some_]) fun piece member => slashless_of_mem_pieces (thin.subset member)
  rw [← parts] at thin
  have rooted : (ofFields (List.replicate n "" ++ (p.names ++ tail))).isAbsolute = true := by
    obtain ⟨m, rfl⟩ := Nat.exists_eq_succ_of_ne_zero (Nat.ne_of_gt positive)
    obtain ⟨next, rest, more⟩ := List.exists_cons_of_ne_nil
      (show List.replicate m "" ++ (p.names ++ tail) ≠ [] by simp [some_])
    refine @rooted_of_pieces _ next rest ?_
    rw [parts, List.replicate_succ, List.cons_append, more]
  refine ⟨(plain.thinner rooted thin).1, ?_, size_le_of_sublist thin, ?_, ?_⟩
  · have solid : ∀ name ∈ p.names, ¬ name = "" ∧ ¬ name = "." := fun name member =>
      ⟨(plain.proper member).1, (plain.proper member).2.1⟩
    rw [names, parts, List.filter_append, List.filter_append]
    rcases behind with rfl | ⟨-, rfl⟩ <;> simpa [isFiller] using solid
  · have ends : weight tail ≤ 1 := by
      rcases behind with rfl | ⟨-, rfl⟩ <;> decide
    have size := size_eq_weight (ofFields (List.replicate n "" ++ (p.names ++ tail)))
    rw [parts, weight_append, weight_append, weight_replicate] at size
    omega
  · have other : '\x00' ≠ '/' := by decide
    rw [mem_text_iff other, mem_text_iff other]
    constructor
    · rintro ⟨piece, member, inside⟩
      exact ⟨piece, thin.subset member, inside⟩
    · rintro ⟨piece, member, inside⟩
      have solid : isFiller piece = false := by
        rw [isFiller, Bool.or_eq_false_iff]
        constructor <;> refine beq_false_of_ne ?_ <;> rintro rfl
        · simp at inside
        · exact plain.noHere member
      have named : piece ∈ p.names := List.mem_filter.mpr ⟨member, by rw [solid]; rfl⟩
      refine ⟨piece, ?_, inside⟩
      rw [parts]
      exact List.mem_append_right _ (List.mem_append_left _ named)

theorem Plain.body_eq {p : Path} (plain : p.Plain) :
    (p.cut.2.filterMap Component.ofPiece?).map Component.text = p.names := by
  obtain ⟨next, rest, parts⟩ := pieces_of_rooted plain.rooted
  have noUp := plain.noUp
  rw [parts, List.mem_cons, not_or] at noUp
  have names_ : p.names = (next :: rest).filter fun piece => !isFiller piece := by
    rw [names, parts]
    exact List.filter_cons_of_neg (by decide)
  rw [cut, parts, names_]
  simp only
  rw [filterMap_ofPiece? noUp.2, List.map_map]
  exact List.map_id _

/-- What a plain path is called from the root. -/
theorem Plain.absolute {p : Path} (plain : p.Plain) (some_ : p.names ≠ []) :
    ∃ whole : Path, (∀ workingDirectory, p.absolute workingDirectory = .ok whole) ∧
      whole.Respells p := by
  have proper : ∀ name ∈ p.names, name ≠ "" ∧ Slashless name := fun name member =>
    ⟨(plain.proper member).1, (plain.proper member).2.2.2⟩
  have empty := text_ne_empty_of_rooted plain.rooted
  have behind : (if p.endsInSlash then [""] else []) = ([] : List String) ∨
      p.endsInSlash = true ∧ (if p.endsInSlash then [""] else []) = [""] := by
    cases p.endsInSlash <;> simp
  have pushed := foldl_push_of_slash some_ (behind.imp_right And.right) proper
  by_cases two : p.leadingSlashes = 2
  · refine ⟨_, fun workingDirectory => ?_,
      plain.respells some_ (Nat.zero_lt_succ 1) (Nat.le_refl 2) (Nat.le_of_eq two.symm) behind⟩
    rw [Path.absolute]
    simp only [empty, two, plain.body_eq, beq_iff_eq, if_true, if_false]
    exact congrArg (fun text => Except.ok (Path.mk text)) (pushed ["", ""])
  · have rooted := plain.rooted
    rw [isAbsolute, bne_iff_ne] at rooted
    refine ⟨_, fun workingDirectory => ?_,
      plain.respells some_ Nat.zero_lt_one (Nat.le_succ 1) (Nat.pos_of_ne_zero rooted) behind⟩
    rw [Path.absolute]
    simp only [empty, two, plain.body_eq, beq_iff_eq, plain.rooted, if_true, if_false]
    exact congrArg (fun text => Except.ok (Path.mk text)) (pushed [""])

end Path

end ModeAcl
