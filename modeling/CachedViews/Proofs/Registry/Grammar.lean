import CachedViews.Proofs.Sorted
import CachedViews.Registry.Basic

/-!
Which declarations are registered. A path is made of names, joined by single dots, and a wildcard
may stand behind the last of them. The first path that is not made so is what a registration fails
with, and then the registry is as it was.
-/
namespace CachedViews

namespace Path

section Splitting

theorem splitDots_eq_splitOn (text : List Char) : splitDots text = text.splitOn '.' := by
  induction text with
  | nil => rfl
  | cons c rest ih =>
    rw [splitDots, ih, List.splitOn_cons_eq_if_modifyHead]
    cases split : rest.splitOn '.' with
    | nil => exact absurd split (List.splitOn_ne_nil '.' rest)
    | cons first more => simp only [beq_iff_eq, List.modifyHead_cons]

theorem splitDots_ne_nil (text : List Char) : splitDots text ≠ [] := by
  rw [splitDots_eq_splitOn]
  exact List.splitOn_ne_nil '.' text

theorem splitDots_dotless (text : List Char) : ∀ segment ∈ splitDots text, '.' ∉ segment := by
  induction text with
  | nil => simp [splitDots]
  | cons c rest ih =>
    rw [splitDots]
    cases split : splitDots rest with
    | nil => exact absurd split (splitDots_ne_nil rest)
    | cons first more =>
      rw [split] at ih
      dsimp only
      split
      · intro segment listed
        rcases List.mem_cons.mp listed with rfl | later
        · exact List.not_mem_nil
        · exact ih segment later
      · rename_i apart
        intro segment listed
        rcases List.mem_cons.mp listed with rfl | later
        · intro dotted
          rcases List.mem_cons.mp dotted with same | inside
          · exact apart same.symm
          · exact ih first List.mem_cons_self inside
        · exact ih segment (List.mem_cons_of_mem _ later)

theorem splitDots_of_dotless {text : List Char} (dotless : '.' ∉ text) :
    splitDots text = [text] := by
  rw [splitDots_eq_splitOn, List.splitOn_eq_singleton dotless]

theorem segments_ne_nil (path : String) : segments path ≠ [] := fun none =>
  splitDots_ne_nil path.toList (List.map_eq_nil_iff.mp none)

/-- A segment of a path is a path of one segment. -/
theorem segments_of_segment {path segment : String} (listed : segment ∈ segments path) :
    segments segment = [segment] := by
  obtain ⟨text, inside, rfl⟩ := List.mem_map.mp listed
  have dotless := splitDots_dotless _ text inside
  rw [segments, String.toList_ofList, splitDots_of_dotless dotless]
  rfl

/-- Splitting and joining undo each other. -/
theorem splitDots_eq_iff {text : List Char} {parts : List (List Char)} (some : parts ≠ [])
    (dotless : ∀ part ∈ parts, '.' ∉ part) :
    splitDots text = parts ↔ text = ['.'].intercalate parts := by
  rw [splitDots_eq_splitOn]
  constructor
  · rintro rfl
    exact (List.intercalate_splitOn '.').symm
  · rintro rfl
    exact List.splitOn_intercalate '.' dotless some

theorem intercalate_concat {parts : List (List Char)} (some : parts ≠ []) (last : List Char) :
    ['.'].intercalate (parts ++ [last]) = ['.'].intercalate parts ++ '.' :: last := by
  induction parts with
  | nil => exact absurd rfl some
  | cons first rest ih =>
    cases rest with
    | nil => simp [List.intercalate]
    | cons second more =>
      rw [List.cons_append, List.cons_append, List.intercalate_cons_cons, ← List.cons_append,
        ih (List.cons_ne_nil _ _), List.intercalate_cons_cons, List.append_assoc _ _ ('.' :: last)]

end Splitting

section Grammar

/-- ASCII letters, the underscore and `@`. -/
def NameStart (c : Char) : Prop :=
  'A' ≤ c ∧ c ≤ 'Z' ∨ 'a' ≤ c ∧ c ≤ 'z' ∨ c = '_' ∨ c = '@'

/-- Behind its first character a name has digits too. -/
def NameChar (c : Char) : Prop := NameStart c ∨ '0' ≤ c ∧ c ≤ '9'

def Name : List Char → Prop
  | [] => False
  | first :: rest => NameStart first ∧ ∀ c ∈ rest, NameChar c

/-- One name or more, joined by single dots, and a wildcard behind them or not. -/
def Grammatical (path : String) : Prop :=
  ∃ names : List (List Char), names ≠ [] ∧ (∀ name ∈ names, Name name) ∧
    (path.toList = ['.'].intercalate names ∨
      path.toList = ['.'].intercalate names ++ ['.', '*'])

theorem isNameStart_iff {c : Char} : isNameStart c = true ↔ NameStart c := by
  have letter : c.isAlpha = (c.isUpper || c.isLower) := rfl
  have upper : c.isUpper = true ↔ 'A' ≤ c ∧ c ≤ 'Z' := decide_eq_true_iff
  have lower : c.isLower = true ↔ 'a' ≤ c ∧ c ≤ 'z' :=
    Bool.and_eq_true_iff.trans (and_congr decide_eq_true_iff decide_eq_true_iff)
  simp [isNameStart, NameStart, letter, upper, lower, or_assoc]

theorem isNameChar_iff {c : Char} : isNameChar c = true ↔ NameChar c := by
  simp [isNameChar, NameChar, isNameStart_iff, Char.isDigit, Char.le_def]

theorem isName_iff {text : List Char} : isName text = true ↔ Name text := by
  cases text with
  | nil => simp [isName, Name]
  | cons first rest => simp [isName, Name, isNameStart_iff, isNameChar_iff]

theorem Name.dotless {text : List Char} (name : Name text) : '.' ∉ text := by
  cases text with
  | nil => exact List.not_mem_nil
  | cons first rest =>
    intro dotted
    have char : NameChar '.' := by
      rcases List.mem_cons.mp dotted with rfl | inside
      · exact Or.inl name.1
      · exact name.2 '.' inside
    exact absurd (isNameChar_iff.mpr char) (by decide)

theorem wellFormedTail_cons {name : List Char} {rest : List (List Char)} :
    wellFormedTail (name :: rest) = true ↔
      Name name ∧ wellFormedTail rest = true ∨ name = ['*'] ∧ rest = [] := by
  cases rest with
  | nil => simp [wellFormedTail, isName_iff]
  | cons next more => simp [wellFormedTail, isName_iff]

theorem names_cons {first : List Char} {rest : List (List Char)} :
    (∃ names, names ≠ [] ∧ (∀ name ∈ names, Name name) ∧
      (first :: rest = names ∨ first :: rest = names ++ [['*']])) ↔
    Name first ∧ ∃ names, (∀ name ∈ names, Name name) ∧
      (rest = names ∨ rest = names ++ [['*']]) := by
  constructor
  · rintro ⟨names, some, all, shape⟩
    obtain ⟨name, names, rfl⟩ := List.exists_cons_of_ne_nil some
    obtain ⟨named, later⟩ := List.forall_mem_cons.mp all
    rcases shape with same | same <;> obtain ⟨rfl, rfl⟩ := List.cons.inj same
    · exact ⟨named, rest, later, Or.inl rfl⟩
    · exact ⟨named, names, later, Or.inr rfl⟩
  · rintro ⟨named, names, later, shape⟩
    refine ⟨first :: names, List.cons_ne_nil _ _, List.forall_mem_cons.mpr ⟨named, later⟩, ?_⟩
    rcases shape with rfl | rfl
    · exact Or.inl rfl
    · exact Or.inr rfl

/-- What may follow a name: more names, and a wildcard behind them or not. -/
theorem wellFormedTail_iff {parts : List (List Char)} :
    wellFormedTail parts = true ↔ ∃ names, (∀ name ∈ names, Name name) ∧
      (parts = names ∨ parts = names ++ [['*']]) := by
  induction parts with
  | nil => simp [wellFormedTail]
  | cons first rest ih =>
    rw [wellFormedTail_cons, ih, ← names_cons]
    constructor
    · rintro (⟨names, -, all, shape⟩ | ⟨rfl, rfl⟩)
      · exact ⟨names, all, shape⟩
      · exact ⟨[], List.forall_mem_nil _, Or.inr rfl⟩
    · rintro ⟨names, all, shape⟩
      cases names with
      | nil =>
        rcases shape with none | star
        · cases none
        · exact Or.inr (List.cons.inj star)
      | cons name names => exact Or.inl ⟨name :: names, List.cons_ne_nil _ _, all, shape⟩

theorem wellFormed_iff_splitDots {path : String} :
    wellFormed path = true ↔ ∃ names, names ≠ [] ∧ (∀ name ∈ names, Name name) ∧
      (splitDots path.toList = names ∨ splitDots path.toList = names ++ [['*']]) := by
  unfold wellFormed
  split
  · rename_i none
    exact absurd none (splitDots_ne_nil _)
  · rename_i first rest split
    rw [Bool.and_eq_true, isName_iff, wellFormedTail_iff, split, names_cons]

theorem wellFormed_iff_grammatical {path : String} :
    wellFormed path = true ↔ Grammatical path := by
  rw [wellFormed_iff_splitDots]
  refine exists_congr fun names => and_congr_right fun some => and_congr_right fun all => ?_
  have dotless : ∀ name ∈ names, '.' ∉ name := fun name listed => (all name listed).dotless
  have starred : ∀ part ∈ names ++ [['*']], '.' ∉ part :=
    List.forall_mem_append.mpr ⟨dotless, by decide⟩
  rw [splitDots_eq_iff some dotless, splitDots_eq_iff (List.append_ne_nil_of_left_ne_nil some _)
    starred, intercalate_concat some]

example : ["pages", "files.*", "@id.name_2"].all wellFormed = true := by decide

example : ["", "*", "*.name", "lab..title", "lab.", "lab.*.pi", "2nd", "é", "pages\n"].any wellFormed =
    false := by decide

end Grammar

section Wildcard

/-- A wildcard stands at the end. -/
def WildcardLast : List String → Prop
  | [] => True
  | segment :: rest => (segment = wildcard → rest = []) ∧ WildcardLast rest

theorem ofList_eq_wildcard {text : List Char} (same : String.ofList text = wildcard) :
    text = ['*'] := by
  have lists := congrArg String.toList same
  rwa [String.toList_ofList] at lists

theorem not_wildcard_of_isName {text : List Char} (named : isName text = true) :
    String.ofList text ≠ wildcard := by
  intro same
  rw [ofList_eq_wildcard same] at named
  revert named
  decide

theorem wildcardLast_of_tail (names : List (List Char)) (formed : wellFormedTail names = true) :
    WildcardLast (names.map String.ofList) := by
  induction names with
  | nil => trivial
  | cons name rest ih =>
    cases rest with
    | nil => exact ⟨fun _ => rfl, trivial⟩
    | cons next more =>
      simp only [wellFormedTail, Bool.and_eq_true] at formed
      exact ⟨fun same => absurd same (not_wildcard_of_isName formed.1), ih formed.2⟩

theorem wildcardLast_of_wellFormed {path : String} (formed : wellFormed path = true) :
    WildcardLast (segments path) := by
  unfold wellFormed at formed
  unfold segments
  split at formed
  · cases formed
  · rename_i first rest split
    simp only [Bool.and_eq_true] at formed
    rw [split]
    exact ⟨fun same => absurd same (not_wildcard_of_isName formed.1),
      wildcardLast_of_tail rest formed.2⟩

theorem WildcardLast.behind : ∀ {before behind : List String},
    WildcardLast (before ++ wildcard :: behind) → behind = []
  | [], _, last => last.1 rfl
  | _ :: _, _, last => behind last.2

theorem head_ne_wildcard {path : String} (formed : wellFormed path = true) (rest : List String) :
    segments path ≠ wildcard :: rest := by
  intro wild
  unfold wellFormed at formed
  unfold segments at wild
  split at formed
  · cases formed
  · rename_i first more split
    rw [split, List.map_cons] at wild
    exact not_wildcard_of_isName (Bool.and_eq_true_iff.mp formed).1 (List.cons.inj wild).1

end Wildcard

end Path

namespace Registry

variable {registry : Registry} {decl : TypeDecl}

/-- The first path of a declaration that is not made of names. -/
def Offending (decl : TypeDecl) (path : String) : Prop :=
  ∃ before behind, decl.paths = before ++ path :: behind ∧
    (∀ earlier ∈ before, Path.Grammatical earlier) ∧ ¬ Path.Grammatical path

/-- What a registration can fail with. -/
inductive Refusal (registry : Registry) (decl : TypeDecl) : ValidationError → Prop where
  | taken (named : registry.get? decl.name ≠ none) :
    Refusal registry decl (.duplicateItemType decl.name)
  | path {path : String} (free : registry.get? decl.name = none) (offending : Offending decl path) :
    Refusal registry decl (.invalidEmbedPath decl.name path pathRule)

theorem find?_eq_some_iff_offending {path : String} :
    decl.paths.find? (fun path => !Path.wellFormed path) = some path ↔ Offending decl path := by
  simp only [List.find?_eq_some_iff_append, Bool.not_not, Bool.not_eq_true', ← Bool.not_eq_true,
    Path.wellFormed_iff_grammatical]
  constructor
  · rintro ⟨refused, before, behind, listed, earlier⟩
    exact ⟨before, behind, listed, earlier, refused⟩
  · rintro ⟨before, behind, listed, earlier, refused⟩
    exact ⟨refused, before, behind, listed, earlier⟩

theorem find?_eq_none_iff_grammatical :
    decl.paths.find? (fun path => !Path.wellFormed path) = none ↔
      ∀ path ∈ decl.paths, Path.Grammatical path := by
  simp [List.find?_eq_none, Path.wellFormed_iff_grammatical]

theorem register_eq_ok {next : Registry} :
    registry.register decl = .ok next ↔
      registry.get? decl.name = none ∧ (∀ path ∈ decl.paths, Path.Grammatical path) ∧
        next = ⟨registry.types.insert decl.name decl⟩ := by
  rw [← find?_eq_none_iff_grammatical]
  unfold register
  cases registry.get? decl.name with
  | some other => simp
  | none => cases decl.paths.find? fun path => !Path.wellFormed path <;> simp [eq_comm]

theorem get?_of_register {next : Registry} (registered : registry.register decl = .ok next)
    (itemType : ItemType) : next.get? itemType =
      if itemType = decl.name then some decl else registry.get? itemType := by
  obtain ⟨-, -, rfl⟩ := register_eq_ok.mp registered
  exact SortedMap.get?_insert_eq registry.types decl.name itemType decl

theorem register_eq_error {error : ValidationError} :
    registry.register decl = .error error ↔ Refusal registry decl error := by
  constructor
  · intro refused
    unfold register at refused
    split at refused
    · rename_i named
      cases refused
      exact .taken (Option.isSome_iff_ne_none.mp named)
    · rename_i free
      split at refused
      · rename_i path found
        cases refused
        exact .path (by simpa using free) (find?_eq_some_iff_offending.mp found)
      · cases refused
  · rintro (named | ⟨free, offending⟩)
    · rw [register, if_pos (Option.isSome_iff_ne_none.mpr named)]
    · rw [register, free, find?_eq_some_iff_offending.mpr offending]
      rfl

/-- Registries that come about by registering declarations. -/
inductive Built : Registry → Prop where
  | empty : Built ∅
  | register {registry next : Registry} {decl : TypeDecl} (built : Built registry)
    (admitted : registry.register decl = .ok next) : Built next

-- Paths are checked when their declaration is registered and never again.
theorem Built.wellFormed {registry : Registry} (built : Built registry) {itemType : ItemType}
    {decl : TypeDecl} (found : registry.get? itemType = some decl) {path : String}
    (listed : path ∈ decl.paths) : Path.wellFormed path = true := by
  induction built with
  | empty => cases found
  | register _ admitted ih =>
    rw [get?_of_register admitted] at found
    split at found
    · cases found
      obtain ⟨-, grammatical, -⟩ := register_eq_ok.mp admitted
      exact Path.wellFormed_iff_grammatical.mpr (grammatical path listed)
    · exact ih found

/-- A wildcard stands nowhere but behind the names of a registered path. -/
theorem Built.wildcard (built : Built registry) {itemType : ItemType}
    (found : registry.get? itemType = some decl) {path : String} (listed : path ∈ decl.paths)
    {before behind : List String}
    (wild : Path.segments path = before ++ Path.wildcard :: behind) : before ≠ [] ∧ behind = [] := by
  have formed := built.wellFormed found listed
  have last := Path.wildcardLast_of_wellFormed formed
  rw [wild] at last
  refine ⟨?_, last.behind⟩
  rintro rfl
  exact Path.head_ne_wildcard formed behind wild

/-- A call that works on a registry in place, and may stop with an error. -/
abbrev InPlace : Type → Type := ExceptT ValidationError (StateM Registry)

/-- What a call on a registry returns, and the registry it leaves. -/
def InPlace.on {α : Type} (call : InPlace α) (registry : Registry) :
    Except ValidationError α × Registry := (ExceptT.run call).run registry

theorem on_bind {α β : Type} (call : InPlace α) (next : α → InPlace β) :
    (call >>= next).on registry =
      match call.on registry with
      | (.ok value, left) => (next value).on left
      | (.error error, left) => (.error error, left) := by
  rcases ended : call.on registry with ⟨error | value, left⟩ <;>
  · simp only [InPlace.on, ExceptT.run_bind, StateT.run_bind] at ended ⊢
    rw [ended]
    rfl

def checkPath (itemType : ItemType) (path : String) : InPlace Unit :=
  unless Path.wellFormed path do throw (.invalidEmbedPath itemType path pathRule)

/-- Registration in place: the name, then path after path, then the only write. -/
def enroll (decl : TypeDecl) : InPlace Unit := do
  if ((← get).get? decl.name).isSome then throw (.duplicateItemType decl.name)
  decl.paths.forM (checkPath decl.name)
  modify fun registry => ⟨registry.types.insert decl.name decl⟩

theorem on_checkPath (itemType : ItemType) (path : String) :
    (checkPath itemType path).on registry =
      if Path.wellFormed path then (.ok (), registry)
      else (.error (.invalidEmbedPath itemType path pathRule), registry) := by
  unfold checkPath
  cases Path.wellFormed path <;> rfl

theorem on_checkPaths (itemType : ItemType) (paths : List String) :
    InPlace.on (paths.forM (checkPath itemType)) registry =
      match paths.find? fun path => !Path.wellFormed path with
      | some path => (.error (.invalidEmbedPath itemType path pathRule), registry)
      | none => (.ok (), registry) := by
  induction paths with
  | nil => rfl
  | cons first rest ih =>
    rw [show (first :: rest).forM (checkPath itemType) =
      (checkPath itemType first >>= fun _ => rest.forM (checkPath itemType)) from rfl, on_bind,
      on_checkPath, List.find?_cons]
    cases Path.wellFormed first with
    | true => exact ih
    | false => rfl

/-- In place too a registration writes only when it succeeds, and writes what it returns. -/
theorem on_enroll (registry : Registry) (decl : TypeDecl) :
    (enroll decl).on registry =
      match registry.register decl with
      | .ok next => (.ok (), next)
      | .error error => (.error error, registry) := by
  have opened : (enroll decl).on registry =
      if (registry.get? decl.name).isSome then (.error (.duplicateItemType decl.name), registry)
      else (decl.paths.forM (checkPath decl.name) >>= fun _ => modify fun registry =>
        ⟨registry.types.insert decl.name decl⟩ : InPlace Unit).on registry := by
    rw [enroll, on_bind]
    show InPlace.on (if (registry.get? decl.name).isSome then _ else _) registry = _
    split <;> rfl
  rw [opened, register]
  split
  · rfl
  · rw [on_bind, on_checkPaths]
    cases decl.paths.find? fun path => !Path.wellFormed path <;> rfl

/-- Registration takes exactly the declarations of new types with nothing but grammatical paths.
Any other is refused, by its first path out of order unless the type is there already, and leaves
the registry as it was. So a registered path has a wildcard only behind its names. -/
theorem registers_exactly_grammatical (registry : Registry) (decl : TypeDecl) :
    ((∃ next, registry.register decl = .ok next) ↔
      registry.get? decl.name = none ∧ ∀ path ∈ decl.paths, Path.Grammatical path) ∧
    (∀ next, registry.register decl = .ok next →
      (enroll decl).on registry = (.ok (), next) ∧
        ∀ itemType, next.get? itemType =
          if itemType = decl.name then some decl else registry.get? itemType) ∧
    (∀ error, registry.register decl = .error error →
      Refusal registry decl error ∧ (enroll decl).on registry = (.error error, registry)) ∧
    (registry.Built → ∀ itemType declared path before behind,
      registry.get? itemType = some declared → path ∈ declared.paths →
      Path.segments path = before ++ Path.wildcard :: behind → before ≠ [] ∧ behind = []) := by
  refine ⟨⟨?_, ?_⟩, ?_, ?_, ?_⟩
  · rintro ⟨next, registered⟩
    obtain ⟨free, grammatical, -⟩ := register_eq_ok.mp registered
    exact ⟨free, grammatical⟩
  · rintro ⟨free, grammatical⟩
    exact ⟨_, register_eq_ok.mpr ⟨free, grammatical, rfl⟩⟩
  · intro next registered
    exact ⟨by rw [on_enroll, registered], get?_of_register registered⟩
  · intro error refused
    exact ⟨register_eq_error.mp refused, by rw [on_enroll, refused]⟩
  · intro built itemType declared path before behind found listed wild
    exact built.wildcard found listed wild

end Registry

end CachedViews
